import TemplateLang.Proofs.Direction.Folded
import TemplateLang.Proofs.Message.Inserted
import TemplateLang.Proofs.Message.Remaining
import TemplateLang.Proofs.Tree.WellShaped

/-! Passes keep trees well-shaped. A message owns items and stands where items stand, so that its
parts or its content may take its place; branches are never moved. Nothing is asked of nodes that
the root does not reach, such as the messages that were replaced before. -/

namespace TemplateLang

namespace Tree

variable {t t' t₁ : Tree} {n m p r x : NodeRef} {rs ns : List NodeRef} {bundle : Option Bundle}

/-- New nodes that belong to no other change no shape. -/
theorem WellShaped.of_grown (h : t.WellShaped) (hc : t.Consistent) (hg : Grown t t') :
    t'.WellShaped where
  kind_root := by rw [hg.kind root hc.has_root, h.kind_root]
  owns n hn := by
    have hn := hg.reaches hn
    rw [hg.kind n (hn.has hc.has_root), hg.children]
    have hsame : (t.children n).map t'.kind = (t.children n).map t.kind :=
      List.map_congr_left fun c hm => hg.kind c (hc.below_of_mem_children hm).1
    rw [hsame]
    exact h.owns n hn

/-! ### One message -/

/-- What the root reaches after an exchange, and was there before, it reached before. -/
theorem Exchanged.reaches_root (hs : Exchanged t t' n rs) (hc : t.Consistent)
    (hn : t.Reaches root n) (hx : t.Has x) (h : t'.Reaches root x) : t.Reaches root x := by
  induction h with
  | refl => exact .refl
  | @child q y _ hq ih =>
    rw [hs.parent] at hq
    split_ifs at hq with hrs
    · rcases hs.source y hrs with hnot | ⟨hny, -⟩
      · exact absurd hx hnot
      · exact hn.trans hny
    · exact .child (ih (has_of_mem_children ((hc.mem_children q y).mpr hq))) hq

/-- An exchange in a body leaves the children of every other kind of node. -/
theorem Exchanged.children_eq_of_not_ownsBody (hs : Exchanged t t' n rs) (h : t.WellShaped)
    (hc : t.Consistent) (hk : t.level n = .message) (hitem : ∀ r ∈ rs, (t'.level r).isItem)
    (hx : t.Reaches root x) (hbody : (t.level x).ownsBody = false) :
    t'.children x = t.children x := by
  have hnoItem : ∀ c ∈ t.children x, (t.level c).isItem = false := fun c hm => by
    rw [level, Level.isItem_of_holds ((h.owns x hx).holds (List.mem_map_of_mem hm))]
    exact hbody
  rw [hs.children, flatMap_substitute_eq_self]
  · intro hm
    have hmessage := hnoItem n hm
    rw [hk] at hmessage
    cases hmessage
  · intro c hm hrs
    have hlevel : t'.level c = t.level c := by
      rw [level, hs.kind c (hc.below_of_mem_children hm).1]
      rfl
    have hci := hitem c hrs
    rw [hlevel, hnoItem c hm] at hci
    cases hci

/-- An exchange leaves items in every body. -/
theorem Exchanged.isItem_of_ownsBody (hs : Exchanged t t' n rs) (h : t.WellShaped)
    (hc : t.Consistent) (hitem : ∀ r ∈ rs, (t'.level r).isItem) (hx : t.Reaches root x)
    (hbody : (t.level x).ownsBody) {c : NodeRef} (hm : c ∈ t'.children x) :
    (t'.level c).isItem := by
  rw [hs.children] at hm
  obtain ⟨d, hd, hcd⟩ := List.mem_flatMap.mp hm
  rw [substitute] at hcd
  split_ifs at hcd with hdn hdrs
  · exact hitem c hcd
  · cases hcd
  · obtain rfl := List.mem_singleton.mp hcd
    rw [level, hs.kind c (hc.below_of_mem_children hd).1,
      Level.isItem_of_holds ((h.owns x hx).holds (List.mem_map_of_mem hd))]
    exact hbody

/-- A new node that the root reaches is one of those in the place of the message, and a leaf of the
tree. -/
theorem Exchanged.of_new (hs : Exchanged t t' n rs) (hc : t.Consistent) (hx : t'.Reaches root x)
    (hnew : ¬ t.Has x) : x ∈ rs ∧ t'.children x = [] := by
  constructor
  · rcases hx.eq_or_parent with rfl | ⟨q, hq, -⟩
    · exact absurd hc.has_root hnew
    · rw [hs.parent] at hq
      split_ifs at hq with hrs
      · exact hrs
      · exact absurd (has_of_parent hq) hnew
  · have hnone : t.children x = [] :=
      List.eq_nil_iff_forall_not_mem.mpr fun c hm => hnew (has_of_mem_children hm)
    rw [hs.children, hnone]
    rfl

/-- Items in the place of a message keep the shape, if the new ones among them are leaves. -/
theorem Exchanged.wellShaped (hs : Exchanged t t' n rs) (h : t.WellShaped) (hc : t.Consistent)
    (hn : t.Reaches root n) (hk : t.level n = .message)
    (hitem : ∀ r ∈ rs, (t'.level r).isItem) (hnew : ∀ r ∈ rs, ¬ t.Has r → t'.level r = .leaf) :
    t'.WellShaped where
  kind_root := by rw [hs.kind root hc.has_root, h.kind_root]
  owns x hx := by
    by_cases hhas : t.Has x
    · have hx := hs.reaches_root hc hn hhas hx
      rw [hs.kind x hhas]
      by_cases hbody : (t.level x).ownsBody
      · refine NodeKind.owns_of_ownsBody hbody fun k hmem => ?_
        obtain ⟨c, hm, rfl⟩ := List.mem_map.mp hmem
        exact hs.isItem_of_ownsBody h hc hitem hx hbody hm
      · have hkinds : (t.children x).map t'.kind = (t.children x).map t.kind :=
          List.map_congr_left fun c hm => hs.kind c (hc.below_of_mem_children hm).1
        rw [hs.children_eq_of_not_ownsBody h hc hk hitem hx (by simpa using hbody), hkinds]
        exact h.owns x hx
    · obtain ⟨hmem, hnil⟩ := hs.of_new hc hx hhas
      rw [hnil]
      exact NodeKind.owns_nil_of_leaf (hnew x hmem hhas)

/-- What a node stands below may have children. -/
theorem WellShaped.isContainer_parent (h : t.WellShaped) (hc : t.Consistent) (hn : t.Reaches root n)
    (hp : t.parent n = some p) : (t.kind p).isContainer := by
  have hreach : t.Reaches root p := by
    rcases hn.eq_or_parent with rfl | ⟨q, hq, hroot⟩
    · rw [hc.root_parent] at hp
      cases hp
    · obtain rfl : p = q := Option.some.inj (hp.symm.trans hq)
      exact hroot
  exact NodeKind.isContainer_of_holds
    ((h.owns p hreach).holds (List.mem_map_of_mem ((hc.mem_children p n).mpr hp)))

section

variable {key desc : String} {parts : List MessagePart}
  (h : t.WellShaped) (hc : t.Consistent) (hn : t.Reaches root n) (hk : t.kind n = .msg key desc)
  (hp : t.parent n = some p)
include h hc hn hk hp

/-- A message without a translation is replaced by its content. -/
theorem WellShaped.insertMessage_content (hnone : bundle.bind (·.get? key) = none) :
    ∃ t₁, t.insertMessage bundle n = (.ok (), t₁) ∧ Exchanged t t₁ n (t.children n) ∧
      t₁.WellShaped := by
  have hmessage : t.level n = .message := by rw [level, hk]; rfl
  obtain ⟨t₁, heq, hs, -⟩ := hc.exists_exchanged (.refl t) hp (h.isContainer_parent hc hn hp)
    (hc.nodup_children n) (fun c hm => (hc.below_of_mem_children hm).1)
    fun c hm => .inr (hc.below_of_mem_children hm).2
  have hitem : ∀ c ∈ t.children n, (t₁.level c).isItem := by
    intro c hm
    have hholds := (h.owns n hn).holds (List.mem_map_of_mem hm)
    rw [level, hs.kind c (hc.below_of_mem_children hm).1, Level.isItem_of_holds hholds, hk]
    rfl
  refine ⟨t₁, ?_, hs, hs.wellShaped h hc hn hmessage hitem fun c hm hnot =>
    absurd (hc.below_of_mem_children hm).1 hnot⟩
  rw [Tree.insertMessage, hk]
  simp only [messageNodes, hnone, ref_view, heq]
  rfl

/-- A message with a translation is replaced by its parts, or a placeholder has no print and the
tree only gets new nodes. -/
theorem WellShaped.insertMessage_parts (htrans : bundle.bind (·.get? key) = some parts) :
    (∃ node fault t₁, t.insertMessage bundle n = (.error (.codeGeneration node fault), t₁) ∧
      Grown t t₁) ∨
    ∃ t₁ rs, t.insertMessage bundle n = (.ok (), t₁) ∧ Exchanged t t₁ n rs ∧ t₁.WellShaped := by
  have hmessage : t.level n = .message := by rw [level, hk]; rfl
  cases hks : (t.view n).partKinds parts with
  | none =>
    left
    obtain ⟨name, -, -, he⟩ := partNodes_eq_error t key [] hks
    have hg := grown_partNodes t (t.view n) key [] parts
    refine ⟨(t.view n).serial, .unknownPlaceholder key name, _, ?_, hg⟩
    rw [Tree.insertMessage, hk]
    simp only [messageNodes, htrans]
    generalize t.partNodes (t.view n) key [] parts = result at he
    obtain ⟨r, t₁⟩ := result
    obtain rfl : r = _ := he
    rfl
  | some ks =>
    right
    obtain ⟨t₁, rs, heq, hrs, hleaf, hsource⟩ := hc.exists_partNodes hp key hks
    obtain ⟨t₂, hreplace, hs, hnodes⟩ := hc.exists_exchanged hrs.grown hp
      (h.isContainer_parent hc hn hp) (by simpa using hrs.nodup) hrs.has hsource
    have hleaf₂ : ∀ r ∈ rs, t₂.level r = .leaf := by
      intro r hr
      rw [level, hnodes.kind]
      exact hleaf r hr
    refine ⟨t₂, rs, ?_, hs, hs.wellShaped h hc hn hmessage (fun r hr => by rw [hleaf₂ r hr]; rfl)
      fun r hr _ => hleaf₂ r hr⟩
    rw [Tree.insertMessage, hk]
    simp only [messageNodes, htrans, heq, hreplace]
    rfl

end

/-- A message in a well-shaped tree is replaced, or a placeholder of it has no print. -/
theorem WellShaped.insertMessage (h : t.WellShaped) (hc : t.Consistent) (hn : t.Reaches root n)
    (hk : (t.kind n).isMessage) (hp : t.parent n = some p) (bundle : Option Bundle) :
    (∃ node fault t₁, t.insertMessage bundle n = (.error (.codeGeneration node fault), t₁) ∧
      Grown t t₁) ∨
    ∃ t₁ rs, t.insertMessage bundle n = (.ok (), t₁) ∧ Exchanged t t₁ n rs ∧ t₁.WellShaped := by
  obtain ⟨key, desc, hk⟩ := exists_of_isMessage hk
  cases htrans : bundle.bind (·.get? key) with
  | none =>
    obtain ⟨t₁, heq, hs, h₁⟩ := h.insertMessage_content hc hn hk hp htrans
    exact .inr ⟨t₁, t.children n, heq, hs, h₁⟩
  | some parts => exact h.insertMessage_parts hc hn hk hp htrans

/-! ### All messages -/

/-- Messages behind the one replaced are reached as before. -/
theorem Exchanged.reaches_of_mem (hs : Exchanged t t₁ n rs) (hc : t.Consistent)
    (hns : Messages t (n :: ns)) (hm : m ∈ ns) (h : t.Reaches root m) : t₁.Reaches root m := by
  have hhas := hns.tail.has hm
  have hapart := hns.apart_head hm
  exact reaches_of_parent_eq (fun y hy =>
    (hs.parent_eq hc hhas hapart.1 (hs.reaches hc hhas hapart.1 hy)).symm) h

/-- Replacing messages one after the other keeps the shape, and no replacement is refused. -/
theorem WellShaped.insertEach (h : t.WellShaped) (hc : t.Consistent) (hns : Messages t ns)
    (hreach : ∀ n ∈ ns, t.Reaches root n) (bundle : Option Bundle) :
    (t.insertEach bundle ns).2.Consistent ∧ (t.insertEach bundle ns).2.WellShaped ∧
      ∀ e, (t.insertEach bundle ns).1 ≠ .error (.tree e) := by
  induction ns generalizing t with
  | nil => exact ⟨hc, h, by simp [Tree.insertEach]⟩
  | cons n ns ih =>
    obtain ⟨p, hp⟩ := hns.attached n (List.mem_cons_self ..)
    rcases h.insertMessage hc (hreach n (List.mem_cons_self ..))
      (hns.isMessage n (List.mem_cons_self ..)) hp bundle with
      ⟨node, fault, t₁, heq, hg⟩ | ⟨t₁, rs, heq, hs, h₁⟩
    · rw [Tree.insertEach, heq]
      exact ⟨hg.consistent hc, h.of_grown hc hg, by simp⟩
    · rw [Tree.insertEach, heq]
      exact ih h₁ hs.consistent (hs.messages hc hns) fun m hm =>
        hs.reaches_of_mem hc hns hm (hreach m (List.mem_cons_of_mem _ hm))

theorem WellShaped.insertMessages (h : t.WellShaped) (hc : t.Consistent)
    (bundle : Option Bundle) :
    (t.insertMessages bundle).2.Consistent ∧ (t.insertMessages bundle).2.WellShaped ∧
      ∀ e, (t.insertMessages bundle).1 ≠ .error (.tree e) :=
  h.insertEach hc (hc.messages_outerMessages (by rw [h.kind_root]; rfl))
    (fun _ hn => (hc.mem_outerMessages.mp hn).reaches) bundle

end Tree

/-! ### Passes -/

/-- A pass over a tree. -/
inductive Pass where
  | qualifyNames
  | markEscapingSites
  | insertEscapes (registry : Registry)
  | insertMessages (bundle : Option Bundle)
  | optimizeBidi (scope : Scope)

/-- The tree that a pass leaves, whether or not it stops with an error. -/
def Pass.run (t : Tree) : Pass → Tree
  | .qualifyNames => t.qualifyNames
  | .markEscapingSites => t.markEscapingSites
  | .insertEscapes registry => (t.insertEscapes registry).2
  | .insertMessages bundle => (t.insertMessages bundle).2
  | .optimizeBidi scope => (t.optimizeBidi scope).2

namespace Tree

variable {t : Tree}

theorem WellShaped.optimizeBidi (h : t.WellShaped) (hc : t.Consistent) (s : Scope) :
    (t.optimizeBidi s).2.Consistent ∧ (t.optimizeBidi s).2.WellShaped := by
  rw [Tree.optimizeBidi]
  cases s.direction with
  | error e => exact ⟨hc, h⟩
  | ok d =>
    refine ⟨(t.sameShape_foldDirection d).consistent hc, h.mapKinds (fun count k => ?_)
      (fun count k => ?_) 0⟩
    · rw [NodeKind.fold_snd, NodeKind.level_folded]
    · rw [NodeKind.fold_snd, NodeKind.opensBlock_folded]

theorem WellShaped.run (h : t.WellShaped) (hc : t.Consistent) (pass : Pass) :
    (pass.run t).Consistent ∧ (pass.run t).WellShaped := by
  cases pass with
  | qualifyNames =>
    exact ⟨(sameShape_mapKinds t _ _ _).consistent hc,
      h.mapKinds NodeKind.carries_qualifyName.level NodeKind.opensBlock_qualifyName ""⟩
  | markEscapingSites =>
    exact ⟨(sameShape_mapKinds t _ _ _).consistent hc,
      h.mapKinds NodeKind.level_markSite NodeKind.opensBlock_markSite false⟩
  | insertEscapes registry =>
    exact ⟨(sameShape_mapKinds t _ _ _).consistent hc,
      h.mapKinds NodeKind.level_insertEscape NodeKind.opensBlock_insertEscape (.ok 0)⟩
  | insertMessages bundle =>
    obtain ⟨hc', h', -⟩ := h.insertMessages hc bundle
    exact ⟨hc', h'⟩
  | optimizeBidi scope => exact h.optimizeBidi hc scope

/-- The tree that passes leave one after the other. -/
def runPasses (t : Tree) (passes : List Pass) : Tree := passes.foldl (fun t pass => pass.run t) t

theorem WellShaped.runPasses (h : t.WellShaped) (hc : t.Consistent) (passes : List Pass) :
    (t.runPasses passes).Consistent ∧ (t.runPasses passes).WellShaped := by
  induction passes generalizing t with
  | nil => exact ⟨hc, h⟩
  | cons pass passes ih =>
    obtain ⟨hc', h'⟩ := h.run hc pass
    exact ih h' hc'

/-- Loaded trees are well-shaped, and so is what passes leave of a well-shaped tree, in whichever
order they run and wherever they stop. No tree operation refuses what the replacement of messages
asks for. -/
theorem passes_keep_shape :
    (∀ fresh text t, Tree.load fresh text = .ok t → t.Consistent ∧ t.WellShaped) ∧
    ∀ t : Tree, t.Consistent → t.WellShaped → ∀ passes,
      ((t.runPasses passes).Consistent ∧ (t.runPasses passes).WellShaped) ∧
      ∀ bundle e, ((t.runPasses passes).insertMessages bundle).1 ≠ .error (.tree e) := by
  refine ⟨fun fresh text t ht => ⟨(loaded_of_load ht).consistent, wellShaped_of_load ht⟩,
    fun t hc h passes => ?_⟩
  obtain ⟨hc', h'⟩ := h.runPasses hc passes
  exact ⟨⟨hc', h'⟩, fun bundle => (h'.insertMessages hc' bundle).2.2⟩

/-- A greeting by a name that the message does not print. -/
def namelessBundle : Bundle := ⟨"fr", [("greeting", [.text "Bonjour ", .placeholder "name"])]⟩

/-- The page keeps its shape when its message cannot be replaced, and when it is replaced later. -/
theorem passes_keep_shape_page :
    (page.insertMessages (some namelessBundle)).1.toOption = none ∧
      (page.runPasses [.qualifyNames, .insertMessages (some namelessBundle), .markEscapingSites,
        .insertMessages (some (bundleOf "greeting")), .insertEscapes .full]).WellShaped := by
  obtain ⟨hload, hpasses⟩ := passes_keep_shape
  obtain ⟨hc, h⟩ := hload 0 pageText page load_pageText
  exact ⟨by decide +kernel, (hpasses page hc h _).1.2⟩

end Tree

end TemplateLang
