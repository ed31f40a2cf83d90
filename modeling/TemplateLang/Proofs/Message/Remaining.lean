import TemplateLang.Proofs.Message.Inserted
import TemplateLang.Proofs.Tree.Scopes

/-! The messages that remain. A message that the bundle does not have gives way to its content,
and the messages in the content are not replaced in turn; no other message remains. -/

namespace TemplateLang

variable {t t' : Tree} {m n x : NodeRef} {bundle : Option Bundle}

namespace View

/-- A message is among the nodes of the view. -/
def HasMessage (v : View) : Prop := ∃ w ∈ v.nodes, w.kind.isMessage

theorem hasMessage_node {ref : NodeRef} {serial : ℕ} {kind : NodeKind} {children : List View} :
    (View.node ref serial kind children).HasMessage ↔
      kind.isMessage ∨ ∃ c ∈ children, c.HasMessage := by
  rw [HasMessage, nodes_node, List.exists_mem_cons_iff]
  refine or_congr Iff.rfl ?_
  constructor
  · rintro ⟨w, hw, hk⟩
    obtain ⟨c, hc, hwc⟩ := List.mem_flatMap.mp hw
    exact ⟨c, hc, w, hwc, hk⟩
  · rintro ⟨c, hc, w, hwc, hk⟩
    exact ⟨w, List.mem_flatMap.mpr ⟨c, hc, hwc⟩, hk⟩

theorem hasMessage_anonymous (v : View) : v.anonymous.HasMessage ↔ v.HasMessage := by
  have hkinds : ∀ v : View, v.HasMessage ↔ ∃ k ∈ v.nodes.map View.kind, k.isMessage := by
    intro v
    simp [HasMessage]
  rw [hkinds, hkinds, kinds_anonymous]

/-- Nodes of parts are no messages. -/
theorem not_isMessage_of_mem_partKinds {msg : View} {parts : List MessagePart}
    {ks : List NodeKind} (h : msg.partKinds parts = some ks) {k : NodeKind} (hk : k ∈ ks) :
    k.isMessage = false := by
  have hlevel := level_of_mem_partKinds h hk
  cases k <;> simp_all [NodeKind.level, NodeKind.isMessage]

theorem not_hasMessage_of_translation {msg : View} {parts : List MessagePart}
    (h : translation bundle msg.kind = some parts) :
    ¬ ∃ v ∈ replacement bundle msg, v.HasMessage := by
  rintro ⟨v, hv, hm⟩
  rw [replacement_of_some h] at hv
  cases hks : msg.partKinds parts with
  | none => simp [hks] at hv
  | some ks =>
    rw [hks, Option.getD_some] at hv
    obtain ⟨k, hk, rfl⟩ := List.mem_map.mp hv
    rw [leaf, hasMessage_node, not_isMessage_of_mem_partKinds hks hk] at hm
    simp at hm

end View

namespace Tree

/-! ### Messages below nodes -/

/-- Whether another message lies below a node. -/
def HasInner (t : Tree) (n : NodeRef) : Prop :=
  ∃ y, t.Reaches n y ∧ y ≠ n ∧ (t.kind y).isMessage

theorem Consistent.hasMessage_view (h : t.Consistent) (n : NodeRef) :
    (t.view n).HasMessage ↔ ∃ y, t.Reaches n y ∧ (t.kind y).isMessage := by
  constructor
  · rintro ⟨w, hw, hk⟩
    obtain ⟨y, hy, rfl⟩ := h.mem_nodes_view.mp hw
    exact ⟨y, hy, kind_view t y ▸ hk⟩
  · rintro ⟨y, hy, hk⟩
    exact ⟨t.view y, h.mem_nodes_view.mpr ⟨y, hy, rfl⟩, by rwa [kind_view]⟩

theorem Consistent.hasInner_iff (h : t.Consistent) (n : NodeRef) :
    HasInner t n ↔ ∃ c ∈ t.children n, (t.view c).HasMessage := by
  constructor
  · rintro ⟨y, hy, hne, hk⟩
    rcases h.reaches_iff.mp hy with rfl | ⟨c, hc, hcy⟩
    · exact absurd rfl hne
    · exact ⟨c, hc, (h.hasMessage_view c).mpr ⟨y, hcy, hk⟩⟩
  · rintro ⟨c, hc, hm⟩
    obtain ⟨y, hy, hk⟩ := (h.hasMessage_view c).mp hm
    refine ⟨y, h.reaches_iff.mpr (.inr ⟨c, hc, hy⟩), ?_, hk⟩
    rintro rfl
    exact h.not_reaches_parent ((h.mem_children _ c).mp hc) hy

/-- The localized view of a node has the messages inside the outer messages that the bundle does
not have. -/
theorem Consistent.hasMessage_localize (h : t.Consistent) (x : NodeRef) :
    (∃ v ∈ (t.view x).localize bundle, v.HasMessage) ↔
      ∃ n, Outer t x n ∧ View.translation bundle (t.kind n) = none ∧ HasInner t n := by
  induction x using h.children_induction with
  | step x ih =>
    by_cases hx : (t.kind x).isMessage
    · have houter : ∀ n, Outer t x n ↔ n = x := by
        intro n
        rw [← h.mem_outerMessages, h.outerMessages_eq, if_pos hx, List.mem_singleton]
      rw [View.localize_of_isMessage (by simpa)]
      simp only [houter, exists_eq_left]
      cases htrans : View.translation bundle (t.kind x) with
      | none =>
        have htrans' : View.translation bundle (t.view x).kind = none := by
          rw [kind_view]
          exact htrans
        rw [View.replacement_of_none htrans', h.hasInner_iff, h.view_eq x]
        simp [View.children]
      | some parts =>
        have htrans' : View.translation bundle (t.view x).kind = some parts := by
          rw [kind_view]
          exact htrans
        simp [View.not_hasMessage_of_translation htrans']
    · have hx' : (t.kind x).isMessage = false := by simpa using hx
      have houter : ∀ n, Outer t x n ↔ ∃ c ∈ t.children x, Outer t c n := by
        intro n
        rw [← h.mem_outerMessages, h.outerMessages_eq, if_neg hx, List.mem_flatMap]
        simp only [h.mem_outerMessages]
      rw [h.view_eq x, View.localize_of_not_isMessage hx']
      simp only [List.mem_singleton, exists_eq_left, View.hasMessage_node, hx, false_or,
        List.flatMap_map, List.mem_flatMap, houter, Bool.false_eq_true]
      constructor
      · rintro ⟨v, ⟨c, hc, hv⟩, hm⟩
        obtain ⟨n, hn, hrest⟩ := (ih c hc).mp ⟨v, hv, hm⟩
        exact ⟨n, ⟨c, hc, hn⟩, hrest⟩
      · rintro ⟨n, ⟨c, hc, hn⟩, hrest⟩
        obtain ⟨v, hv, hm⟩ := (ih c hc).mpr ⟨n, hn, hrest⟩
        exact ⟨v, ⟨c, hc, hv⟩, hm⟩

/-! ### What remains -/

/-- A message that is in no other is outer, and the other way round. -/
theorem Loaded.outer_iff (h : t.Loaded) :
    Outer t root n ↔ t.Reaches root n ∧ (t.kind n).isMessage ∧
      t.nearestAncestor n NodeKind.isMessage = none := by
  have hc := h.consistent
  constructor
  · rintro ⟨hreach, hmsg, hfirst⟩
    refine ⟨hreach, hmsg, ?_⟩
    cases ha : t.nearestAncestor n NodeKind.isMessage with
    | none => rfl
    | some a =>
      obtain ⟨hamsg, p, hp, hap⟩ := hc.of_nearestAncestor ha
      have hhas : t.Has p := has_of_mem_children ((hc.mem_children p n).mpr hp)
      have hroot : t.Reaches root a := by
        refine h.reaches_root ?_
        by_contra hnot
        exact not_reaches_of_not_has hc hnot hhas hap
      obtain rfl := hfirst a hroot (.child hap hp) hamsg
      exact absurd hap (hc.not_reaches_parent hp)
  · rintro ⟨hreach, hmsg, hnone⟩
    refine ⟨hreach, hmsg, fun a _ han hamsg => ?_⟩
    rcases han.eq_or_parent with rfl | ⟨p, hp, hap⟩
    · rfl
    · obtain ⟨b, hb⟩ := hc.exists_nearestAncestor hp hap hamsg
      rw [hnone] at hb
      cases hb

/-- After a replacement that succeeds a message is left exactly where a message that is in no
other, and that the bundle does not have, has a message inside. -/
theorem insertMessages_leaves_message_iff {fresh : ℕ} {text : String}
    (hload : Tree.load fresh text = .ok t) (ht : t.insertMessages bundle = (.ok (), t')) :
    (∃ n ∈ t'.descendants root, (t'.kind n).isMessage) ↔
      ∃ n ∈ t.descendants root, ∃ key desc, t.kind n = .msg key desc ∧
        t.nearestAncestor n NodeKind.isMessage = none ∧ bundle.bind (·.get? key) = none ∧
        ∃ y ∈ t.descendants n, y ≠ n ∧ (t.kind y).isMessage := by
  have h := loaded_of_load hload
  obtain ⟨new, hl⟩ := h.toFormed.of_insertMessages ht
  have hview := hl.localized_view h.toFormed h.toFormed.outside_root
  have hleft : (∃ n ∈ t'.descendants root, (t'.kind n).isMessage) ↔
      (t'.view root).HasMessage := by
    rw [hl.formed.consistent.hasMessage_view]
    simp only [hl.formed.consistent.mem_descendants]
  have hlocal : (t'.view root).HasMessage ↔
      ∃ v ∈ (t.view root).localize bundle, v.HasMessage := by
    have hmem : (∃ v ∈ [(t'.view root).anonymous], v.HasMessage) ↔
        ∃ v ∈ ((t.view root).localize bundle).map View.anonymous, v.HasMessage := by rw [hview]
    simpa [View.hasMessage_anonymous] using hmem
  rw [hleft, hlocal, h.consistent.hasMessage_localize]
  simp only [h.consistent.mem_descendants, h.outer_iff]
  constructor
  · rintro ⟨n, ⟨hreach, hmsg, hnone⟩, htrans, y, hy⟩
    obtain ⟨key, desc, hk⟩ := exists_of_isMessage hmsg
    rw [hk] at htrans
    exact ⟨n, hreach, key, desc, hk, hnone, htrans, y, hy⟩
  · rintro ⟨n, hreach, key, desc, hk, hnone, htrans, y, hy⟩
    refine ⟨n, ⟨hreach, by rw [hk]; rfl, hnone⟩, ?_, y, hy⟩
    rw [hk]
    exact htrans

/-! ### A message inside a message -/

def nestedText : String :=
  "[[[\"a.tmpl\",\"app\",[[\".a\",false,true,[[\"msg\",\"outer\",\"\"," ++
    "[[\"text\",\"A\"],[\"msg\",\"inner\",\"\",[[\"text\",\"B\"]]]]]]]]]]]"

def nested : Tree :=
  ⟨#[⟨0, .fileSet, none, [⟨1⟩]⟩, ⟨1, .file "a.tmpl" "app", some root, [⟨2⟩]⟩,
    ⟨2, .template ".a" false true, some ⟨1⟩, [⟨3⟩]⟩,
    ⟨3, .msg "outer" "", some ⟨2⟩, [⟨4⟩, ⟨5⟩]⟩, ⟨4, .text "A", some ⟨3⟩, []⟩,
    ⟨5, .msg "inner" "", some ⟨3⟩, [⟨6⟩]⟩, ⟨6, .text "B", some ⟨5⟩, []⟩], 7⟩

/-- A bundle with one message, whose localized text is `C`. -/
def bundleOf (key : String) : Bundle := ⟨"fr", [(key, [.text "C"])]⟩

/-- The nested messages, localized as far as they are with a bundle of one message. -/
def localizedNested (key : String) : Tree := (nested.insertMessages (some (bundleOf key))).2

theorem load_nestedText : Tree.load 0 nestedText = .ok nested := by decide +kernel

/-- With a bundle that has the outer message, none is left. -/
theorem insertMessages_leaves_no_message_of_outer :
    ¬ ∃ n ∈ (localizedNested "outer").descendants root,
      ((localizedNested "outer").kind n).isMessage := by
  have hinsert : nested.insertMessages (some (bundleOf "outer")) =
      (.ok (), localizedNested "outer") := Prod.ext (by decide +kernel) rfl
  rw [insertMessages_leaves_message_iff load_nestedText hinsert]
  rintro ⟨n, hn, key, desc, hk, hfirst, hnone, y, hy, hne, hm⟩
  have houter : ∀ n ∈ nested.descendants root, (nested.kind n).isMessage →
      nested.nearestAncestor n NodeKind.isMessage = none → n = ⟨3⟩ := by decide +kernel
  obtain rfl := houter n hn (by rw [hk]; rfl) hfirst
  have hkind : nested.kind ⟨3⟩ = .msg "outer" "" := by decide +kernel
  rw [hkind] at hk
  cases hk
  have hsome : (some (bundleOf "outer")).bind (·.get? "outer") = some [.text "C"] := by
    decide +kernel
  rw [hsome] at hnone
  cases hnone

/-- With a bundle that has the inner message alone, that message is left with its source. -/
theorem insertMessages_leaves_inner :
    ¬ ∀ (fresh : ℕ) (text : String) (t t' : Tree) (bundle : Option Bundle),
      Tree.load fresh text = .ok t → t.insertMessages bundle = (.ok (), t') →
      ∀ n ∈ t'.descendants root, (t'.kind n).isMessage = false := by
  intro h
  have hinsert : nested.insertMessages (some (bundleOf "inner")) =
      (.ok (), localizedNested "inner") := Prod.ext (by decide +kernel) rfl
  have hno := h 0 nestedText nested _ _ load_nestedText hinsert ⟨5⟩ (by decide +kernel)
  have hyes : ((localizedNested "inner").kind ⟨5⟩).isMessage = true := by decide +kernel
  rw [hno] at hyes
  cases hyes

end Tree

end TemplateLang
