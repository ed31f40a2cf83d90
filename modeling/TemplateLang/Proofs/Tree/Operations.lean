import Mathlib.Data.List.Nodup
import TemplateLang.Proofs.Tree.Loaded
import TemplateLang.Tree.Forest

/-! What every operation does to a consistent tree, whether it succeeds or not: the tree stays
consistent, its nodes keep their serial numbers, and new nodes take the numbers that
follow. Operations that move nodes make none; making a node takes one number; a copy is a
new tree in which one node after the other is made. -/

namespace TemplateLang.Tree

variable {t t' : Tree} {n p r x : NodeRef} {rs : List NodeRef} {i : ℕ} {k : NodeKind}

/-- The serial numbers of all nodes, in order of their handles. -/
def serials (t : Tree) : List ℕ := t.nodes.toList.map Node.serial

theorem length_serials (t : Tree) : t.serials.length = t.nodes.size := by simp [serials]

theorem getElem?_serials (t : Tree) (i : ℕ) :
    t.serials[i]? = if t.Has ⟨i⟩ then some (t.serial ⟨i⟩) else none := by
  rw [serials, List.getElem?_map, Array.getElem?_toList, serial, node]
  by_cases h : t.Has ⟨i⟩
  · rw [if_pos h, Array.getElem?_eq_getElem h]
    rfl
  · rw [if_neg h, Array.getElem?_eq_none (Nat.not_lt.mp h)]
    rfl

theorem serials_create (t : Tree) (k : NodeKind) :
    (t.create k).2.serials = t.serials ++ [t.fresh] := by
  simp [serials, create]

theorem SameNodes.serials_eq (h : SameNodes t t') : t'.serials = t.serials := by
  refine List.ext_getElem? fun i => ?_
  rw [getElem?_serials, getElem?_serials, h.serial]
  simp only [h.has]

/-- The second tree is what an operation leaves of the first. -/
structure Evolves (t t' : Tree) : Prop where
  consistent : t'.Consistent
  serials : ∃ k, t'.serials = t.serials ++ List.range' t.fresh k ∧ t'.fresh = t.fresh + k

theorem Consistent.evolves_refl (h : t.Consistent) : Evolves t t := ⟨h, 0, by simp⟩

theorem Evolves.trans {t'' : Tree} (h : Evolves t t') (h' : Evolves t' t'') : Evolves t t'' := by
  obtain ⟨k, hk, hfresh⟩ := h.serials
  obtain ⟨k', hk', hfresh'⟩ := h'.serials
  refine ⟨h'.consistent, k + k', ?_, ?_⟩
  · rw [hk', hk, hfresh, List.append_assoc]
    rw [← List.range'_append_1]
  · rw [hfresh', hfresh, Nat.add_assoc]

theorem Evolves.has (h : Evolves t t') (hx : t.Has x) : t'.Has x := by
  obtain ⟨k, hk, -⟩ := h.serials
  have hlength := congrArg List.length hk
  rw [List.length_append, length_serials, length_serials] at hlength
  unfold Has at *
  omega

/-- Moving nodes takes no serial number. -/
theorem SameNodes.evolves (h : SameNodes t t') (hc : t'.Consistent) (hf : t'.fresh = t.fresh) :
    Evolves t t' := ⟨hc, 0, by simp [h.serials_eq], hf⟩

theorem Consistent.evolves_create (h : t.Consistent) (k : NodeKind) : Evolves t (t.create k).2 :=
  ⟨h.create k, 1, serials_create t k, rfl⟩

/-! ### Taking nodes out -/

theorem fresh_detach (t : Tree) (n : NodeRef) : (t.detach n).2.fresh = t.fresh := by
  unfold detach
  split
  · rfl
  · simp only
    split <;> rfl

theorem Consistent.evolves_detach (h : t.Consistent) (n : NodeRef) : Evolves t (t.detach n).2 :=
  (sameNodes_detach t n).evolves (h.detach n) (fresh_detach t n)

theorem Consistent.evolves_foldl_detach (h : t.Consistent) (rs : List NodeRef) :
    Evolves t (rs.foldl (fun t r => (t.detach r).2) t) := by
  induction rs generalizing t with
  | nil => exact h.evolves_refl
  | cons r rs ih =>
    have hdetach := h.evolves_detach r
    exact hdetach.trans (ih hdetach.consistent)

/-! ### Inserting -/

/-- An insertion succeeds on these four conditions alone. -/
theorem insertChild_eq_ok : t.insertChild p i r = .ok t' ↔
    (t.kind p).isContainer ∧ r ≠ root ∧ t.isAncestorOrSelf r p = false ∧
      i ≤ t.otherChildren p r ∧ t' = (t.detach r).2.placed p i r := by
  unfold insertChild placed
  split_ifs with hp hr ha hi
  · simp_all
  · simp [hr]
  · simp [ha]
  · simp [hi]
  · simp only [Except.ok.injEq]
    constructor
    · rintro rfl
      simp_all
    · rintro ⟨-, -, -, -, rfl⟩
      rfl

/-- Once the child is taken out, the places are those between the other children. -/
theorem Consistent.length_children_detach (h : t.Consistent) (p r : NodeRef) :
    ((t.detach r).2.children p).length = t.otherChildren p r := by
  rw [h.children_detach, otherChildren]
  split_ifs with hr
  · rw [List.length_erase_of_mem ((h.mem_children p r).mpr hr)]
  · rw [List.erase_of_not_mem fun hm => hr ((h.mem_children p r).mp hm)]

theorem Consistent.placeable_detach (h : t.Consistent) (hr : t.Has r) (hroot : r ≠ root)
    (habove : ¬ t.Reaches r p) : Placeable (t.detach r).2 p r where
  has := (sameNodes_detach t r).has.mpr hr
  ne_root := hroot
  orphan := by rw [h.parent_detach, if_pos rfl]
  not_above := by
    refine fun hrp => habove (reaches_of_parent_eq (fun y hy => ?_) hrp)
    rw [h.parent_detach, if_neg]
    rintro rfl
    exact habove hy

theorem Consistent.evolves_insertChild (h : t.Consistent) (hr : t.Has r)
    (heq : t.insertChild p i r = .ok t') : Evolves t t' := by
  obtain ⟨hp, hroot, habove, hi, rfl⟩ := insertChild_eq_ok.mp heq
  have hnodes := sameNodes_detach t r
  have hplace : Placeable (t.detach r).2 p r := by
    refine h.placeable_detach hr hroot fun hrp => ?_
    rw [h.isAncestorOrSelf_iff.mpr hrp] at habove
    cases habove
  refine (hnodes.trans (sameNodes_placed ..)).evolves ?_ (fresh_detach t r)
  refine (h.detach r).placed (hnodes.has.mpr (has_of_isContainer hp)) hplace ?_
  rwa [h.length_children_detach]

theorem Consistent.evolves_toOption_insertChild (h : t.Consistent) (hr : t.Has r) :
    Evolves t ((t.insertChild p i r).toOption.getD t) := by
  cases heq : t.insertChild p i r with
  | error e => exact h.evolves_refl
  | ok t' => exact h.evolves_insertChild hr heq

theorem Consistent.evolves_insertAll (h : t.Consistent) (p : NodeRef) (i : ℕ)
    (hrs : ∀ r ∈ rs, t.Has r) : Evolves t (t.insertAll p i rs).2 := by
  induction rs generalizing t i with
  | nil => exact h.evolves_refl
  | cons r rs ih =>
    rw [Tree.insertAll]
    cases heq : t.insertChild p i r with
    | error e => exact h.evolves_refl
    | ok t₁ =>
      have h₁ := h.evolves_insertChild (hrs r (List.mem_cons_self ..)) heq
      exact h₁.trans (ih h₁.consistent (i + 1) fun s hs => h₁.has (hrs s (.tail _ hs)))

theorem Consistent.evolves_add (h : t.Consistent) (p : NodeRef) (k : NodeKind) :
    Evolves t (t.add p k).2 := by
  have hcreate := h.evolves_create k
  have hhas : (t.create k).2.Has ⟨t.nodes.size⟩ := has_create_iff.mpr (.inr rfl)
  unfold add
  simp only [create_fst]
  split
  · next t₁ heq =>
    rw [appendChild] at heq
    exact hcreate.trans (hcreate.consistent.evolves_insertChild hhas heq)
  · exact hcreate

/-! ### Replacing -/

/-- What is left when the replacements are taken out, and then the node whose place they take. -/
def cleared (t : Tree) (n : NodeRef) (rs : List NodeRef) : Tree :=
  ((rs.foldl (fun t r => (t.detach r).2) t).detach n).2

theorem Consistent.evolves_cleared (h : t.Consistent) (n : NodeRef) (rs : List NodeRef) :
    Evolves t (t.cleared n rs) := by
  have hfold := h.evolves_foldl_detach rs
  exact hfold.trans (hfold.consistent.evolves_detach n)

theorem sameNodes_cleared (t : Tree) (n : NodeRef) (rs : List NodeRef) :
    SameNodes t (t.cleared n rs) :=
  (sameNodes_foldl_detach t rs).trans (sameNodes_detach ..)

theorem Consistent.parent_cleared (h : t.Consistent) (n : NodeRef) (rs : List NodeRef)
    (x : NodeRef) :
    (t.cleared n rs).parent x = if x = n ∨ x ∈ rs then none else t.parent x := by
  obtain ⟨hc, hparent, -⟩ := h.foldl_detach rs
  rw [cleared, hc.parent_detach, hparent]
  by_cases hx : x = n
  · simp [hx]
  · simp [hx]

/-- A replacement is refused before anything is taken out, or the replacements are inserted one
after the other. -/
theorem Consistent.replaceWith_cases (h : t.Consistent) (n : NodeRef) (rs : List NodeRef) :
    (∃ e, t.replaceWith n rs = (.error e, t) ∧
      (t.parent n = none ∨ ∃ p, t.parent n = some p ∧ ∃ r ∈ rs, r = n ∨ t.Reaches r p)) ∨
    ∃ p i, t.parent n = some p ∧ (∀ r ∈ rs, r ≠ n ∧ ¬ t.Reaches r p) ∧
      t.replaceWith n rs = (t.cleared n rs).insertAll p i rs := by
  cases hp : t.parent n with
  | none => exact .inl ⟨_, by rw [Tree.replaceWith, hp], .inl rfl⟩
  | some p =>
    have hcheck : ∀ r, (decide (r = n) || t.isAncestorOrSelf r p) = true ↔
        r = n ∨ t.Reaches r p := by
      intro r
      rw [Bool.or_eq_true, decide_eq_true_iff, h.isAncestorOrSelf_iff]
    cases hfind : rs.find? fun r => decide (r = n) || t.isAncestorOrSelf r p with
    | some r =>
      have hfound := List.find?_some hfind
      refine .inl ⟨_, by simp only [Tree.replaceWith, hp, hfind]; rfl, .inr ⟨p, rfl, r, ?_⟩⟩
      exact ⟨List.mem_of_find?_eq_some hfind, (hcheck r).mp hfound⟩
    | none =>
      have hrs : ∀ r ∈ rs, r ≠ n ∧ ¬ t.Reaches r p := by
        intro r hr
        rw [← not_or, ← hcheck]
        exact List.find?_eq_none.mp hfind r hr
      obtain ⟨hc, hparent, -⟩ := h.foldl_detach rs
      have hpn : (rs.foldl (fun t r => (t.detach r).2) t).parent n = some p := by
        rw [hparent, if_neg fun hn => (hrs n hn).1 rfl, hp]
      obtain ⟨i, hdetach⟩ : ∃ i, (rs.foldl (fun t r => (t.detach r).2) t).detach n =
          (some i, t.cleared n rs) := ⟨_, by rw [cleared, hc.detach_of_parent hpn]⟩
      refine .inr ⟨p, i, rfl, hrs, ?_⟩
      simp only [Tree.replaceWith, hp, hfind, hdetach]

theorem Consistent.evolves_replaceWith (h : t.Consistent) (n : NodeRef)
    (hrs : ∀ r ∈ rs, t.Has r) : Evolves t (t.replaceWith n rs).2 := by
  rcases h.replaceWith_cases n rs with ⟨e, heq, -⟩ | ⟨p, i, -, -, heq⟩
  · rw [heq]
    exact h.evolves_refl
  · have hcleared := h.evolves_cleared n rs
    rw [heq]
    exact hcleared.trans (hcleared.consistent.evolves_insertAll p i fun r hr =>
      hcleared.has (hrs r hr))

/-! ### Kinds -/

theorem Consistent.evolves_setKind (h : t.Consistent) (n : NodeRef) (k : NodeKind) :
    Evolves t (t.setKind n k) := by
  have hserials : (t.setKind n k).serials = t.serials := by
    refine List.ext_getElem? fun i => ?_
    have hhas : (t.setKind n k).Has ⟨i⟩ ↔ t.Has ⟨i⟩ := by simp [Has]
    rw [getElem?_serials, getElem?_serials, serial_setKind]
    simp only [hhas]
  refine ⟨⟨fun q c => ?_, fun q => ?_, ?_, ?_, ?_⟩, 0, by simp [hserials], rfl⟩
  · rw [children_setKind, parent_setKind, h.mem_children]
  · rw [children_setKind]
    exact h.nodup_children q
  · simpa [Has] using h.has_root
  · rw [parent_setKind, h.root_parent]
  · obtain ⟨rank, hrank⟩ := h.acyclic
    exact ⟨rank, fun c q hq => hrank c q (by rwa [parent_setKind] at hq)⟩

/-! ### Copies -/

theorem addUnchecked_eq (t : Tree) (p : NodeRef) (k : NodeKind) :
    t.addUnchecked p k = (⟨t.nodes.size⟩, t.grown p k) := by
  have hchildren : (t.create k).2.children p ++ [⟨t.nodes.size⟩] =
      ((t.create k).2.children p).insertIdx (t.children p).length ⟨t.nodes.size⟩ := by
    rw [children_create, List.insertIdx_length_self]
  rw [addUnchecked]
  simp only [create_fst, hchildren]
  rfl

theorem Consistent.evolves_grown (h : t.Consistent) (hp : t.Has p) (k : NodeKind) :
    Evolves t (t.grown p k) := by
  refine ⟨(h.create k).placed (hp.create k) (h.placeable_create hp k) ?_, 1, ?_, rfl⟩
  · rw [children_create]
  · rw [grown, (sameNodes_placed ..).serials_eq, serials_create]
    rfl

mutual

theorem Consistent.evolves_addCopy : ∀ (v : View) {t : Tree} {p : NodeRef}, t.Consistent →
    t.Has p → Evolves t (t.addCopy p v)
  | .node _ _ kind children, t, p, h, hp => by
    have hgrown := h.evolves_grown hp kind
    rw [addCopy, addUnchecked_eq]
    exact hgrown.trans (hgrown.consistent.evolves_addCopies children
      (has_grown_iff.mpr (.inr rfl)))

theorem Consistent.evolves_addCopies : ∀ (vs : List View) {t : Tree} {p : NodeRef},
    t.Consistent → t.Has p → Evolves t (t.addCopies p vs)
  | [], t, p, h, hp => by
    rw [addCopies]
    exact h.evolves_refl
  | v :: rest, t, p, h, hp => by
    have hcopy := h.evolves_addCopy v hp
    rw [addCopies]
    exact hcopy.trans (hcopy.consistent.evolves_addCopies rest (hcopy.has hp))

end

theorem serials_new (fresh : ℕ) : (new fresh).serials = [fresh] := rfl

/-- A copy is a consistent tree whose nodes have the serial numbers from the count on. -/
theorem deepCopy_serials (t : Tree) : t.deepCopy.Consistent ∧
    ∃ k, t.deepCopy.serials = List.range' t.fresh k ∧ t.deepCopy.fresh = t.fresh + k := by
  have hnew := (loaded_new t.fresh).consistent
  have hcopies := hnew.evolves_addCopies (t.view root).children hnew.has_root
  obtain ⟨k, hk, hfresh⟩ := hcopies.serials
  refine ⟨hcopies.consistent, k + 1, ?_, ?_⟩
  · rw [deepCopy, hk, serials_new, List.range'_succ]
    rfl
  · rw [deepCopy, hfresh, Nat.add_comm k, ← Nat.add_assoc]
    rfl

/-! ### All operations -/

theorem hasAll_iff : t.hasAll rs ↔ ∀ r ∈ rs, t.Has r := by
  simp [hasAll, Has]

/-- What an operation leaves, when the handles are those of nodes of the tree. -/
theorem Consistent.evolves_run (h : t.Consistent) (operation : Operation)
    (hall : ∀ n ∈ operation.handles, t.Has n) : Evolves t (operation.run t) := by
  cases operation with
  | create kind => exact h.evolves_create kind
  | add parent kind => exact h.evolves_add parent kind
  | append parent child =>
    exact h.evolves_toOption_insertChild (hall child (by simp [Operation.handles]))
  | insert parent index child =>
    exact h.evolves_toOption_insertChild (hall child (by simp [Operation.handles]))
  | detach n => exact h.evolves_detach n
  | replace n replacements =>
    exact h.evolves_replaceWith n fun r hr => hall r (List.mem_cons_of_mem _ hr)
  | setKind n kind => exact h.evolves_setKind n kind

end TemplateLang.Tree
