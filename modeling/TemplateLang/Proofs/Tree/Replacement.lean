import TemplateLang.Proofs.Tree.Forest

/-! When putting nodes in the place of another is all or nothing. The checks that come first look
for the node itself and for nodes above it. A replacement that passes them leaves the node
without a parent whatever happens next, so it has to succeed; and it succeeds, with every
replacement in its place, exactly when none is the root, none stands twice and the parent
may own children. -/

namespace TemplateLang.Tree

variable {t t' : Tree} {n p r x : NodeRef} {rs : List NodeRef} {i : ℕ} {f : Forest}
  {operations : List Forest.Operation}

/-- Parents and children are as before. -/
def Unmoved (t t' : Tree) : Prop := ∀ x, t'.children x = t.children x ∧ t'.parent x = t.parent x

/-- The replacements stand in order where `n` was, and nowhere else. -/
structure InPlace (t t' : Tree) (n : NodeRef) (rs : List NodeRef) : Prop where
  place : ∃ p pre post, t.parent n = some p ∧ t.children p = pre ++ n :: post ∧
    t'.children p = pre.filter (· ∉ rs) ++ rs ++ post.filter (· ∉ rs)
  elsewhere : ∀ x, t.parent n ≠ some x → t'.children x = (t.children x).filter (· ∉ rs)
  parent : ∀ x, x ≠ n → t'.parent x = if x ∈ rs then t.parent n else t.parent x
  orphan : t'.parent n = none

/-- A replacement that is refused changes nothing, and one that succeeds is complete. -/
def AllOrNothing (t : Tree) (n : NodeRef) (rs : List NodeRef) : Prop :=
  match t.replaceWith n rs with
  | (.error _, t') => Unmoved t t'
  | (.ok _, t') => InPlace t t' n rs

/-- The checks let a replacement through that cannot be made: the parent may own no children, the
root is to become a child, or a node is to stand twice. -/
def SlipsThrough (t : Tree) (n : NodeRef) (rs : List NodeRef) : Prop :=
  ∃ p, t.parent n = some p ∧ rs ≠ [] ∧ (∀ r ∈ rs, r ≠ n ∧ t.isAncestorOrSelf r p = false) ∧
    ((t.kind p).isContainer = false ∨ root ∈ rs ∨ ¬ rs.Nodup)

/-! ### Insertions one after the other -/

theorem isContainer_of_insertAll (hrs : rs ≠ []) (h : (t.insertAll p i rs).1 = .ok ()) :
    (t.kind p).isContainer := by
  cases rs with
  | nil => exact absurd rfl hrs
  | cons r rs =>
    rw [insertAll] at h
    cases heq : t.insertChild p i r with
    | error e =>
      rw [heq] at h
      cases h
    | ok t₁ => exact (insertChild_eq_ok.mp heq).1

/-- Insertions give parents to the inserted nodes alone. -/
theorem Consistent.parent_insertAll (h : t.Consistent) (hrs : ∀ r ∈ rs, t.Has r) (hx : x ∉ rs) :
    (t.insertAll p i rs).2.parent x = t.parent x := by
  induction rs generalizing t i with
  | nil => rfl
  | cons r rs ih =>
    rw [Tree.insertAll]
    cases heq : t.insertChild p i r with
    | error e => rfl
    | ok t₁ =>
      have hr := hrs r (List.mem_cons_self ..)
      have h₁ := h.evolves_insertChild hr heq
      rw [List.mem_cons, not_or] at hx
      refine (ih h₁.consistent (fun s hs => h₁.has (hrs s (.tail _ hs))) hx.2).trans ?_
      obtain ⟨-, -, -, -, rfl⟩ := insertChild_eq_ok.mp heq
      rw [parent_placed ((sameNodes_detach t r).has.mpr hr), if_neg hx.1, h.parent_detach,
        if_neg hx.1]

/-! ### Replacements that are made -/

theorem Consistent.exists_place (h : t.Consistent) (hp : t.parent n = some p) :
    ∃ pre post, t.children p = pre ++ n :: post ∧ n ∉ pre ∧ n ∉ post := by
  obtain ⟨pre, post, hsplit⟩ := List.append_of_mem ((h.mem_children p n).mpr hp)
  have hnodup := h.nodup_children p
  rw [hsplit, List.nodup_middle, List.nodup_cons, List.mem_append, not_or] at hnodup
  exact ⟨pre, post, hsplit, hnodup.1⟩

/-- With no replacements the node is taken out. -/
theorem Consistent.inPlace_detach (h : t.Consistent) (hp : t.parent n = some p) :
    InPlace t (t.detach n).2 n [] := by
  obtain ⟨pre, post, hsplit, hpre, -⟩ := h.exists_place hp
  refine ⟨⟨p, pre, post, hp, hsplit, ?_⟩, fun x hx => ?_, fun x hx => ?_, ?_⟩
  · rw [h.children_detach, hsplit, List.erase_append_right _ hpre, List.erase_cons_head]
    simp
  · rw [h.children_detach, List.erase_of_not_mem fun hm => hx ((h.mem_children x n).mp hm)]
    simp
  · rw [h.parent_detach, if_neg hx]
    simp
  · rw [h.parent_detach, if_pos rfl]

theorem Consistent.inPlace_replaceWith (h : t.Consistent) (hr : Replaceable t n p rs) :
    ∃ t', t.replaceWith n rs = (.ok (), t') ∧ InPlace t t' n rs := by
  obtain ⟨t', heq, -, hparent, hchildren⟩ := h.replaceWith hr
  obtain ⟨pre, post, hsplit, hpre, hpost⟩ := h.exists_place hr.parent
  have hn : n ∉ rs := fun hn => hr.ne_self n hn rfl
  refine ⟨t', heq, ⟨p, pre, post, hr.parent, hsplit, ?_⟩, fun x hx => ?_, fun x hx => ?_, ?_⟩
  · rw [hchildren, hsplit, List.flatMap_append, List.flatMap_cons,
      flatMap_substitute_of_not_mem hpre, flatMap_substitute_of_not_mem hpost, substitute,
      if_pos rfl, List.append_assoc]
  · rw [hchildren, flatMap_substitute_of_not_mem fun hm => hx ((h.mem_children x n).mp hm)]
  · rw [hparent, hr.parent, if_neg hx]
  · rw [hparent, if_neg hn, if_pos rfl]

/-! ### Replacements that pass the checks -/

/-- After the checks the node is left without a parent, whether the replacement succeeds or not. -/
theorem Consistent.parent_replaceWith (h : t.Consistent) (hrs : ∀ r ∈ rs, t.Has r)
    (hn : n ∉ rs) : ((t.cleared n rs).insertAll p i rs).2.parent n = none := by
  have hcleared := h.evolves_cleared n rs
  rw [hcleared.consistent.parent_insertAll (fun r hr => hcleared.has (hrs r hr)) hn,
    h.parent_cleared, if_pos (.inl rfl)]

/-- What stands in place could be placed. -/
theorem InPlace.placeable (hi : InPlace t t' n rs) (hc : t'.Consistent) (hn : n ∉ rs) :
    root ∉ rs ∧ rs.Nodup := by
  obtain ⟨p, pre, post, hp, -, hchildren⟩ := hi.place
  constructor
  · intro hroot
    have hne : root ≠ n := by
      rintro rfl
      exact hn hroot
    have hparent := hi.parent root hne
    rw [if_pos hroot, hp, hc.root_parent] at hparent
    cases hparent
  · have hnodup := hc.nodup_children p
    rw [hchildren, List.append_assoc] at hnodup
    exact (List.nodup_append.mp (List.nodup_append.mp hnodup).2.1).1

section

variable (h : t.Consistent) (hp : t.parent n = some p) (hrs : ∀ r ∈ rs, t.Has r)
  (hchecked : ∀ r ∈ rs, r ≠ n ∧ ¬ t.Reaches r p)

include h hp hrs hchecked

theorem Consistent.allOrNothing_of_placeable
    (hplace : rs ≠ [] → (t.kind p).isContainer ∧ root ∉ rs ∧ rs.Nodup) :
    AllOrNothing t n rs := by
  by_cases hnil : rs = []
  · subst hnil
    have heq : t.replaceWith n [] = (.ok (), (t.detach n).2) := by
      rcases h.replaceWith_cases n [] with ⟨e, -, hnone | ⟨q, -, r, hr, -⟩⟩ | ⟨q, i, -, -, heq⟩
      · rw [hp] at hnone
        cases hnone
      · cases hr
      · exact heq
    rw [AllOrNothing, heq]
    exact h.inPlace_detach hp
  · obtain ⟨hcontainer, hroot, hnodup⟩ := hplace hnil
    obtain ⟨t', heq, hi⟩ := h.inPlace_replaceWith ⟨hp, hcontainer, hnodup, hrs,
      fun r hr he => hroot (he ▸ hr), fun r hr => (hchecked r hr).1, fun r hr => (hchecked r hr).2⟩
    rw [AllOrNothing, heq]
    exact hi

/-- The node has lost its parent, so the replacement has to be complete. -/
theorem Consistent.placeable_of_allOrNothing (hall : AllOrNothing t n rs) (hnil : rs ≠ []) :
    (t.kind p).isContainer ∧ root ∉ rs ∧ rs.Nodup := by
  rcases h.replaceWith_cases n rs with ⟨e, -, hrefused⟩ | ⟨q, i, hq, -, heq⟩
  · rcases hrefused with hnone | ⟨q, hq, r, hr, hrefused⟩
    · rw [hp] at hnone
      cases hnone
    · obtain rfl : p = q := Option.some.inj (hp.symm.trans hq)
      exact absurd hrefused (not_or.mpr (hchecked r hr))
  · obtain rfl : p = q := Option.some.inj (hp.symm.trans hq)
    have hn : n ∉ rs := fun hn => (hchecked n hn).1 rfl
    have hc := (h.evolves_replaceWith n hrs).consistent
    rw [heq] at hc
    have horphan := h.parent_replaceWith (p := p) (i := i) hrs hn
    cases hresult : ((t.cleared n rs).insertAll p i rs).1 with
    | error e =>
      have hpair : t.replaceWith n rs = (.error e, ((t.cleared n rs).insertAll p i rs).2) :=
        heq.trans (Prod.ext hresult rfl)
      rw [AllOrNothing, hpair] at hall
      have hparent := (hall n).2
      rw [horphan, hp] at hparent
      cases hparent
    | ok =>
      have hpair : t.replaceWith n rs = (.ok (), ((t.cleared n rs).insertAll p i rs).2) :=
        heq.trans (Prod.ext hresult rfl)
      rw [AllOrNothing, hpair] at hall
      have hcontainer := isContainer_of_insertAll hnil hresult
      rw [(sameNodes_cleared t n rs).kind] at hcontainer
      exact ⟨hcontainer, hall.placeable hc hn⟩

end

/-- A replacement is all or nothing exactly when the checks do not let one through that cannot be
made. -/
theorem allOrNothing_iff (hrun : Forest.run operations = some f) (ht : t ∈ f.trees)
    (hrs : ∀ r ∈ rs, t.Has r) : AllOrNothing t n rs ↔ ¬ SlipsThrough t n rs := by
  have h := (Forest.sound_of_run hrun).consistent t ht
  rcases h.replaceWith_cases n rs with ⟨e, heq, hrefused⟩ | ⟨p, i, hp, hchecked, -⟩
  · have hall : AllOrNothing t n rs := by
      rw [AllOrNothing, heq]
      exact fun x => ⟨rfl, rfl⟩
    refine iff_of_true hall ?_
    rintro ⟨p, hp, -, hchecked, -⟩
    rcases hrefused with hnone | ⟨q, hq, r, hr, rfl | habove⟩
    · rw [hp] at hnone
      cases hnone
    · exact (hchecked r hr).1 rfl
    · obtain rfl : p = q := Option.some.inj (hp.symm.trans hq)
      have hnot := (hchecked r hr).2
      rw [h.isAncestorOrSelf_iff.mpr habove] at hnot
      cases hnot
  · constructor
    · rintro hall ⟨q, hq, hnil, -, hfault⟩
      obtain rfl : p = q := Option.some.inj (hp.symm.trans hq)
      obtain ⟨hcontainer, hroot, hnodup⟩ :=
        h.placeable_of_allOrNothing hp hrs hchecked hall hnil
      rcases hfault with hchildless | hmem | hrepeated
      · rw [hcontainer] at hchildless
        cases hchildless
      · exact hroot hmem
      · exact hrepeated hnodup
    · intro hnot
      refine h.allOrNothing_of_placeable hp hrs hchecked fun hnil => ?_
      by_contra hplace
      refine hnot ⟨p, hp, hnil, fun r hr => ⟨(hchecked r hr).1, ?_⟩, ?_⟩
      · rw [Bool.eq_false_iff, ne_eq, h.isAncestorOrSelf_iff]
        exact (hchecked r hr).2
      · rwa [not_and_or, not_and_or, not_not, Bool.not_eq_true] at hplace

/-! ### A node that is to stand twice -/

/-- A template with two texts, and another text that is in no place. -/
def shelved : List Forest.Operation :=
  [.new, .change 0 (.add root (.file "a.tmpl" "app")),
    .change 0 (.add ⟨1⟩ (.template "app.a" false true)), .change 0 (.add ⟨2⟩ (.text "A")),
    .change 0 (.add ⟨2⟩ (.text "B")), .change 0 (.create (.text "C"))]

def shelvedTree : Tree :=
  ⟨#[⟨0, .fileSet, none, [⟨1⟩]⟩, ⟨1, .file "a.tmpl" "app", some root, [⟨2⟩]⟩,
    ⟨2, .template "app.a" false true, some ⟨1⟩, [⟨3⟩, ⟨4⟩]⟩, ⟨3, .text "A", some ⟨2⟩, []⟩,
    ⟨4, .text "B", some ⟨2⟩, []⟩, ⟨5, .text "C", none, []⟩], 6⟩

theorem run_shelved : Forest.run shelved = some ⟨[shelvedTree], 6⟩ := by decide +kernel

/-- The last text gives way to the one in no place and to its own sibling. -/
theorem allOrNothing_shelved : Forest.run shelved = some ⟨[shelvedTree], 6⟩ ∧
    (∀ r ∈ [⟨5⟩, ⟨3⟩], shelvedTree.Has r) ∧ AllOrNothing shelvedTree ⟨4⟩ [⟨5⟩, ⟨3⟩] := by
  have hhas : ∀ r ∈ [⟨5⟩, ⟨3⟩], shelvedTree.Has r := by decide
  refine ⟨run_shelved, hhas, (allOrNothing_iff run_shelved (by simp) hhas).mpr ?_⟩
  rintro ⟨p, hp, -, -, hfault⟩
  obtain rfl : ⟨2⟩ = p := Option.some.inj hp
  revert hfault
  decide

/-- A text that is to take the place of another twice is put there and refused the second time,
when the other has lost its place. -/
theorem not_allOrNothing_repeated :
    ¬ ∀ (operations : List Forest.Operation) (f : Forest) (t : Tree) (n : NodeRef)
      (rs : List NodeRef), Forest.run operations = some f → t ∈ f.trees → t.Has n →
      (∀ r ∈ rs, t.Has r) → AllOrNothing t n rs := by
  intro hall
  have h := hall shelved _ shelvedTree ⟨4⟩ [⟨5⟩, ⟨5⟩] run_shelved (by simp) (by decide) (by decide)
  have hresult : shelvedTree.replaceWith ⟨4⟩ [⟨5⟩, ⟨5⟩] =
      (.error ⟨2, .indexOutOfRange 2 1⟩, (shelvedTree.replaceWith ⟨4⟩ [⟨5⟩]).2) := by
    decide +kernel
  rw [AllOrNothing, hresult] at h
  have hparent := (h ⟨4⟩).2
  revert hparent
  decide +kernel

end TemplateLang.Tree
