import TemplateLang.Proofs.Message.Outer
import TemplateLang.Proofs.Message.Splice

/-! Replacing all outer messages. They are replaced one after the other; since they lie apart, each
replacement leaves the views of the rest as they are. The result is the localized view of
the tree, and the replacement fails exactly when a placeholder of one of them refers to no
print. -/

namespace TemplateLang.Tree

variable {t t' t₁ : Tree} {n m p r x : NodeRef} {rs ns : List NodeRef} {bundle : Option Bundle}

/-- Messages of a tree that lie apart. -/
structure Messages (t : Tree) (ns : List NodeRef) : Prop where
  isMessage : ∀ n ∈ ns, (t.kind n).isMessage
  attached : ∀ n ∈ ns, ∃ p, t.parent n = some p
  apart : ns.Pairwise t.Apart

theorem Messages.has (h : Messages t ns) (hn : n ∈ ns) : t.Has n := by
  obtain ⟨p, hp⟩ := h.attached n hn
  exact has_of_parent hp

theorem Messages.tail (h : Messages t (n :: ns)) : Messages t ns where
  isMessage m hm := h.isMessage m (List.mem_cons_of_mem _ hm)
  attached m hm := h.attached m (List.mem_cons_of_mem _ hm)
  apart := (List.pairwise_cons.mp h.apart).2

theorem Messages.apart_head (h : Messages t (n :: ns)) (hm : m ∈ ns) : t.Apart n m :=
  (List.pairwise_cons.mp h.apart).1 m hm

/-! ### One replacement -/

theorem Exchanged.view_eq_of_mem (hs : Exchanged t t₁ n rs) (h : t.Consistent)
    (hns : Messages t (n :: ns)) (hm : m ∈ ns) : t₁.view m = t.view m :=
  hs.view_eq h (hns.tail.has hm) (hns.apart_head hm).1 (hns.apart_head hm).2

theorem Exchanged.not_mem (hs : Exchanged t t₁ n rs) (hns : Messages t (n :: ns)) (hm : m ∈ ns) :
    m ∉ rs := by
  intro hr
  rcases hs.source m hr with hnot | ⟨hnm, -⟩
  · exact hnot (hns.tail.has hm)
  · exact (hns.apart_head hm).1 hnm

/-- The messages behind the one replaced still lie apart. -/
theorem Exchanged.messages (hs : Exchanged t t₁ n rs) (h : t.Consistent)
    (hns : Messages t (n :: ns)) : Messages t₁ ns where
  isMessage m hm := by
    rw [hs.kind m (hns.tail.has hm)]
    exact hns.tail.isMessage m hm
  attached m hm := by
    obtain ⟨p, hp⟩ := hns.tail.attached m hm
    have hmn : m ≠ n := by
      rintro rfl
      exact (hns.apart_head hm).1 .refl
    exact ⟨p, by rw [hs.parent, if_neg (hs.not_mem hns hm), if_neg hmn, hp]⟩
  apart := by
    refine hns.tail.apart.imp_of_mem fun {a b} ha hb hab => ⟨fun hr => hab.1 ?_, fun hr => hab.2 ?_⟩
    · exact hs.reaches h (hns.tail.has hb) (hns.apart_head hb).1 hr
    · exact hs.reaches h (hns.tail.has ha) (hns.apart_head ha).1 hr

/-- The nodes that took the place of one message lie apart from the others. -/
theorem Exchanged.apart_of_mem (hs : Exchanged t t₁ n rs) (h : t.Consistent)
    (hns : Messages t (n :: ns)) (hm : m ∈ ns) (hr : r ∈ rs) : t₁.Apart m r := by
  obtain ⟨p, hp⟩ := hns.attached n (List.mem_cons_self ..)
  have hapart := hns.apart_head hm
  refine ⟨fun hmr => ?_, fun hrm => ?_⟩
  · rcases hmr.eq_or_parent with rfl | ⟨q, hq, hmq⟩
    · exact hs.not_mem hns hm hr
    · rw [hs.parent, if_pos hr, hp] at hq
      obtain rfl := Option.some.inj hq
      have hhas : t.Has p := has_of_mem_children ((h.mem_children p n).mpr hp)
      exact hapart.2 (.child (hs.reaches h hhas (h.not_reaches_parent hp) hmq) hp)
  · have := hs.reaches h (hns.tail.has hm) hapart.1 hrm
    exact h.not_reaches_of_source (hs.source r hr) (hns.tail.has hm) hapart.1 this

/-! ### All replacements -/

/-- What stands in the place of a child when messages are replaced. -/
def exchange (ns : List NodeRef) (new : NodeRef → List NodeRef) (c : NodeRef) : List NodeRef :=
  if c ∈ ns then new c else [c]

theorem flatMap_exchange_eq_self {new : NodeRef → List NodeRef} {cs : List NodeRef}
    (h : ∀ c ∈ cs, c ∉ ns) : cs.flatMap (exchange ns new) = cs := by
  have hsingle : ∀ c ∈ cs, exchange ns new c = [c] := fun c hc => if_neg (h c hc)
  rw [List.flatMap_congr hsingle]
  exact List.flatMap_singleton' cs

/-- The nodes `new n` have taken the place of each message `n`, and are what its localized view
holds. -/
structure Localized (t t' : Tree) (bundle : Option Bundle) (ns : List NodeRef)
    (new : NodeRef → List NodeRef) : Prop where
  formed : t'.Formed
  opened : t.Opened → t'.Opened
  has : ∀ x, t.Has x → t'.Has x
  kind : ∀ x, t.Has x → t'.kind x = t.kind x
  serial : ∀ x, t.Has x → t'.serial x = t.serial x
  children : ∀ x, t.Has x → (∀ n ∈ ns, ¬ t.Reaches n x) →
    t'.children x = (t.children x).flatMap (exchange ns new)
  replaced : ∀ n ∈ ns, (new n).map (fun r => (t'.view r).anonymous) =
    (View.replacement bundle (t.view n)).map View.anonymous

/-- What lies apart from all messages keeps its view. -/
theorem Localized.view_eq {new : NodeRef → List NodeRef} (hl : Localized t t' bundle ns new)
    (h : t.Consistent) (hx : t.Has x) (hapart : ∀ n ∈ ns, t.Apart n x) : t'.view x = t.view x := by
  refine h.view_congr hl.formed.consistent fun y hy => ?_
  have hyhas := hy.has hx
  have hbelow : ∀ {z}, t.Reaches x z → ∀ n ∈ ns, ¬ t.Reaches n z := by
    intro z hz n hn hnz
    rcases hnz.total hz with hnx | hxn
    · exact (hapart n hn).1 hnx
    · exact (hapart n hn).2 hxn
  refine ⟨hl.kind y hyhas, hl.serial y hyhas, ?_⟩
  rw [hl.children y hyhas (hbelow hy), flatMap_exchange_eq_self]
  intro c hc hcn
  exact hbelow (.child hy ((h.mem_children y c).mp hc)) c hcn .refl

/-- One replacement before the others. -/
theorem Spliced.localized {new : NodeRef → List NodeRef} (hs : Spliced t t₁ n rs)
    (h : t.Formed) (hns : Messages t (n :: ns)) (hl : Localized t₁ t' bundle ns new)
    (hrs : rs.map (fun r => (t₁.view r).anonymous) =
      (View.replacement bundle (t.view n)).map View.anonymous) :
    Localized t t' bundle (n :: ns) (Function.update new n rs) where
  formed := hl.formed
  opened ho := by
    obtain ⟨p, hp⟩ := hns.attached n (List.mem_cons_self ..)
    have hmessage := level_of_isMessage (hns.isMessage n (List.mem_cons_self ..))
    exact hl.opened (hs.opened h hmessage hp ho)
  has x hx := hl.has x (hs.has x hx)
  kind x hx := by rw [hl.kind x (hs.has x hx), hs.kind x hx]
  serial x hx := by rw [hl.serial x (hs.has x hx), hs.serial x hx]
  children x hx hout := by
    have hnx := hout n (List.mem_cons_self ..)
    have hout₁ : ∀ m ∈ ns, ¬ t₁.Reaches m x := fun m hm hmx =>
      hout m (List.mem_cons_of_mem _ hm) (hs.reaches h.consistent hx hnx hmx)
    rw [hl.children x (hs.has x hx) hout₁, hs.children, List.flatMap_assoc]
    refine List.flatMap_congr fun c hc => ?_
    have hp := (h.consistent.mem_children x c).mp hc
    by_cases hcn : c = n
    · have hrs' : ∀ r ∈ rs, r ∉ ns := fun r hr hm => hs.not_mem hns hm hr
      rw [hcn, substitute, if_pos rfl, exchange, if_pos (List.mem_cons_self ..),
        Function.update_self, flatMap_exchange_eq_self hrs']
    · have hcrs : c ∉ rs := by
        intro hm
        rcases hs.source c hm with hnot | ⟨hnc, -⟩
        · exact hnot (has_of_parent hp)
        · rcases hnc.eq_or_parent with rfl | ⟨q, hq, hnq⟩
          · exact hcn rfl
          · obtain rfl : x = q := Option.some.inj (hp.symm.trans hq)
            exact hnx hnq
      rw [substitute, if_neg hcn, if_neg hcrs, List.flatMap_singleton, exchange, exchange,
        Function.update_of_ne hcn]
      simp [hcn]
  replaced m hm := by
    rcases List.mem_cons.mp hm with rfl | hmem
    · rw [Function.update_self, ← hrs]
      refine List.map_congr_left fun r hr => ?_
      obtain ⟨p, hp⟩ := hns.attached m (List.mem_cons_self ..)
      have hhas : t₁.Has r := has_of_parent (by rw [hs.parent, if_pos hr, hp])
      rw [hl.view_eq hs.formed.consistent hhas fun a ha => hs.apart_of_mem h.consistent hns ha hr]
    · have hmn : m ≠ n := by
        rintro rfl
        exact (hns.apart_head hmem).1 .refl
      rw [Function.update_of_ne hmn, hl.replaced m hmem, hs.view_eq_of_mem h.consistent hns hmem]

theorem Formed.insertEach_eq_ok (h : t.Formed) (hns : Messages t ns)
    (hr : ∀ n ∈ ns, View.Resolves bundle (t.view n)) :
    ∃ t' new, t.insertEach bundle ns = (.ok (), t') ∧ Localized t t' bundle ns new := by
  induction ns generalizing t with
  | nil =>
    refine ⟨t, fun _ => [], rfl, h, id, fun _ => id, fun _ _ => rfl, fun _ _ => rfl,
      fun x _ _ => ?_, ?_⟩
    · rw [flatMap_exchange_eq_self]
      exact fun _ _ => List.not_mem_nil
    · simp
  | cons n ns ih =>
    obtain ⟨p, hp⟩ := hns.attached n (List.mem_cons_self ..)
    obtain ⟨t₁, rs, heq, hs, hrs⟩ := h.insertMessage_eq_ok
      (hns.isMessage n (List.mem_cons_self ..)) hp (hr n (List.mem_cons_self ..))
    obtain ⟨t', new, heq', hl⟩ := ih hs.formed (hs.messages h.consistent hns) fun m hm => by
      rw [hs.view_eq_of_mem h.consistent hns hm]
      exact hr m (List.mem_cons_of_mem _ hm)
    refine ⟨t', Function.update new n rs, ?_, hs.localized h hns hl hrs⟩
    rw [insertEach, heq]
    exact heq'

/-- The error is about a message that is to be replaced, as it is in the tree before. -/
theorem Formed.insertEach_eq_error (h : t.Formed) (hns : Messages t ns) (hn : n ∈ ns)
    (hr : ¬ View.Resolves bundle (t.view n)) :
    ∃ m ∈ ns, ∃ key name, UnknownPlaceholder t bundle m key name ∧
      (t.insertEach bundle ns).1 =
        .error (.codeGeneration (t.serial m) (.unknownPlaceholder key name)) := by
  induction ns generalizing t with
  | nil => simp at hn
  | cons m ns ih =>
    obtain ⟨p, hp⟩ := hns.attached m (List.mem_cons_self ..)
    have hm := hns.isMessage m (List.mem_cons_self ..)
    rw [insertEach]
    by_cases hresolve : View.Resolves bundle (t.view m)
    · obtain ⟨t₁, rs, heq, hs, -⟩ := h.insertMessage_eq_ok hm hp hresolve
      have hmem : n ∈ ns := by
        rcases List.mem_cons.mp hn with rfl | hn
        · exact absurd hresolve hr
        · exact hn
      have hview := fun {a} (ha : a ∈ ns) => hs.view_eq_of_mem h.consistent hns ha
      obtain ⟨a, ha, key, name, ⟨desc, parts, hk, htrans, hpart, hnone⟩, he⟩ :=
        ih hs.formed (hs.messages h.consistent hns) hmem (by rwa [hview hmem])
      have hhas := hns.tail.has ha
      rw [hs.kind a hhas] at hk
      rw [hview ha] at hnone
      rw [hs.serial a hhas] at he
      rw [heq]
      exact ⟨a, List.mem_cons_of_mem _ ha, key, name, ⟨desc, parts, hk, htrans, hpart, hnone⟩, he⟩
    · obtain ⟨key, name, hunknown, he⟩ := insertMessage_eq_error hm hresolve
      generalize t.insertMessage bundle m = result at he
      obtain ⟨r, t₁⟩ := result
      obtain rfl : r = _ := he
      exact ⟨m, List.mem_cons_self .., key, name, hunknown, rfl⟩

/-! ### The whole tree -/

theorem Consistent.messages_outerMessages (h : t.Consistent)
    (hroot : (t.kind root).isMessage = false) : Messages t (t.view root).outerMessages where
  isMessage n hn := (h.mem_outerMessages.mp hn).isMessage
  attached n hn := by
    obtain ⟨hreach, hmsg, -⟩ := h.mem_outerMessages.mp hn
    rcases hreach.eq_or_parent with rfl | ⟨p, hp, -⟩
    · rw [hmsg] at hroot
      cases hroot
    · exact ⟨p, hp⟩
  apart := h.apart_outerMessages root

theorem Formed.messages_outerMessages (h : t.Formed) : Messages t (t.view root).outerMessages :=
  h.consistent.messages_outerMessages (by rw [h.kind_root]; rfl)

/-- Messages are replaced exactly when all placeholders of outer messages refer to prints. -/
theorem Formed.insertMessages_ok_iff (h : t.Formed) :
    (∃ t', t.insertMessages bundle = (.ok (), t')) ↔
      ∀ n, Outer t root n → View.Resolves bundle (t.view n) := by
  constructor
  · rintro ⟨t', ht'⟩ n hn
    by_contra hr
    obtain ⟨m, -, key, name, -, he⟩ := h.insertEach_eq_error h.messages_outerMessages
      (h.consistent.mem_outerMessages.mpr hn) hr
    rw [insertMessages] at ht'
    rw [ht'] at he
    cases he
  · intro hr
    obtain ⟨t', -, heq, -⟩ := h.insertEach_eq_ok h.messages_outerMessages
      fun n hn => hr n (h.consistent.mem_outerMessages.mp hn)
    exact ⟨t', heq⟩

theorem Formed.of_insertMessages (h : t.Formed) (ht : t.insertMessages bundle = (.ok (), t')) :
    ∃ new, Localized t t' bundle (t.view root).outerMessages new := by
  have hr := h.insertMessages_ok_iff.mp ⟨t', ht⟩
  obtain ⟨t'', new, heq, hl⟩ := h.insertEach_eq_ok h.messages_outerMessages
    fun n hn => hr n (h.consistent.mem_outerMessages.mp hn)
  obtain rfl : t'' = t' := (Prod.mk.inj (heq.symm.trans ht)).2
  exact ⟨new, hl⟩

/-- No message is above a node, nor is the node one. -/
def Outside (t : Tree) (x : NodeRef) : Prop :=
  t.Reaches root x ∧ ∀ a, t.Reaches root a → t.Reaches a x → (t.kind a).isMessage = false

theorem Formed.outside_root (h : t.Formed) : Outside t root := by
  refine ⟨.refl, fun a ha ha' => ?_⟩
  obtain rfl := h.consistent.reaches_antisymm ha' ha
  have hroot := h.leveled.level_root
  rw [level] at hroot
  cases hk : t.kind root <;> simp_all [NodeKind.level, NodeKind.isMessage]

/-- Above a child of a node outside messages there is at most the child itself a message. -/
theorem Outside.eq_or_of_child {a c : NodeRef} (hx : Outside t x) (hp : t.parent c = some x)
    (ha : t.Reaches root a) (hac : t.Reaches a c) : a = c ∨ (t.kind a).isMessage = false := by
  rcases hac.eq_or_parent with rfl | ⟨q, hq, haq⟩
  · exact .inl rfl
  · obtain rfl : x = q := Option.some.inj (hp.symm.trans hq)
    exact .inr (hx.2 a ha haq)

theorem Outside.child {c : NodeRef} (hx : Outside t x) (hp : t.parent c = some x)
    (hc : (t.kind c).isMessage = false) : Outside t c := by
  refine ⟨.child hx.1 hp, fun a ha hac => ?_⟩
  rcases hx.eq_or_of_child hp ha hac with rfl | hno
  · exact hc
  · exact hno

theorem Outside.outer_child {c : NodeRef} (hx : Outside t x) (hp : t.parent c = some x)
    (hc : (t.kind c).isMessage) : Outer t root c := by
  refine ⟨.child hx.1 hp, hc, fun a ha hac hmsg => ?_⟩
  rcases hx.eq_or_of_child hp ha hac with rfl | hno
  · rfl
  · rw [hmsg] at hno
    cases hno

theorem Outside.not_reaches (hx : Outside t x) (h : t.Consistent) :
    ∀ n ∈ (t.view root).outerMessages, ¬ t.Reaches n x := by
  intro n hn hnx
  obtain ⟨hreach, hmsg, -⟩ := h.mem_outerMessages.mp hn
  rw [hx.2 n hreach hnx] at hmsg
  cases hmsg

/-- Outside messages the new tree has the localized views of the old. -/
theorem Localized.localized_view {new : NodeRef → List NodeRef} (h : t.Formed)
    (hl : Localized t t' bundle (t.view root).outerMessages new) (hx : Outside t x) :
    [(t'.view x).anonymous] = ((t.view x).localize bundle).map View.anonymous := by
  have hc := h.consistent
  induction x using hc.children_induction with
  | step x ih =>
    have hhas := hx.1.has hc.has_root
    have hkind : (t.kind x).isMessage = false := hx.2 x hx.1 .refl
    have hchild : ∀ c ∈ t.children x,
        (exchange (t.view root).outerMessages new c).map (fun r => (t'.view r).anonymous) =
          ((t.view c).localize bundle).map View.anonymous := by
      intro c hcx
      have hp := (hc.mem_children x c).mp hcx
      by_cases hcm : (t.kind c).isMessage
      · have hmem : c ∈ (t.view root).outerMessages :=
          hc.mem_outerMessages.mpr (hx.outer_child hp hcm)
        rw [exchange, if_pos hmem, hl.replaced c hmem, View.localize_of_isMessage (by simpa)]
      · have hmem : c ∉ (t.view root).outerMessages := fun hm =>
          hcm (hc.mem_outerMessages.mp hm).isMessage
        rw [exchange, if_neg hmem, List.map_singleton]
        exact ih c hcx (hx.child hp (by simpa using hcm))
    rw [hl.formed.consistent.view_eq x, hc.view_eq x, View.localize_of_not_isMessage hkind,
      View.anonymous, List.map_singleton, View.anonymous, hl.kind x hhas,
      hl.children x hhas (hx.not_reaches hc)]
    rw [List.map_map, List.map_flatMap, List.flatMap_map, List.map_flatMap]
    exact congrArg (fun cs => [View.node root 0 (t.kind x) cs]) (List.flatMap_congr hchild)

end TemplateLang.Tree
