import TemplateLang.Proofs.Tree.Described
import TemplateLang.Proofs.Tree.Operations

/-! Adding copies of views to a tree in which every creation gave a node. What is there stays as it
is but for the children of the node below which the copies come, and the copies come behind
those, numbered from the end of the arena on. -/

namespace TemplateLang.Tree

variable {t t' : Tree} {p n x : NodeRef} {v : View} {vs : List View} {fresh : ℕ}

theorem size_grown (t : Tree) (p : NodeRef) (k : NodeKind) :
    (t.grown p k).nodes.size = t.nodes.size + 1 := by
  rw [grown, (sameNodes_placed ..).size, size_nodes_create]

theorem serial_grown (t : Tree) (p : NodeRef) (k : NodeKind) (x : NodeRef) :
    (t.grown p k).serial x = if x = ⟨t.nodes.size⟩ then t.fresh else t.serial x := by
  rw [grown, (sameNodes_placed ..).serial, serial_create]

/-- Consistent trees whose serial numbers run along with the handles. -/
structure Unbroken (fresh : ℕ) (t : Tree) : Prop where
  consistent : t.Consistent
  next : t.fresh = fresh + t.nodes.size

/-- The second tree is the first with copies of views below `p`. -/
structure Copied (fresh : ℕ) (p : NodeRef) (vs : List View) (t t' : Tree) : Prop where
  unbroken : t'.Unbroken fresh
  size : t'.nodes.size = t.nodes.size + (vs.flatMap View.nodes).length
  kind : ∀ x, t.Has x → t'.kind x = t.kind x
  serial : ∀ x, t.Has x → t'.serial x = t.serial x
  children : ∀ x, t.Has x → x ≠ p → t'.children x = t.children x
  copies : ∃ new, t'.children p = t.children p ++ new ∧
    new.map t'.view = View.numberedList fresh t.nodes.size vs

theorem Copied.has (h : Copied fresh p vs t t') (hx : t.Has x) : t'.Has x := by
  have hsize := h.size
  unfold Has at *
  omega

/-- Below a node that does not reach `p` nothing changes. -/
theorem Copied.view_eq (h : Copied fresh p vs t t') (hc : t.Consistent) (hx : t.Has x)
    (hp : ¬ t.Reaches x p) : t'.view x = t.view x := by
  refine hc.view_congr h.unbroken.consistent fun y hy => ?_
  have hhas := hy.has hx
  refine ⟨h.kind y hhas, h.serial y hhas, h.children y hhas ?_⟩
  rintro rfl
  exact hp hy

theorem Unbroken.copied_refl (h : t.Unbroken fresh) : Copied fresh p [] t t where
  unbroken := h
  size := rfl
  kind _ _ := rfl
  serial _ _ := rfl
  children _ _ _ := rfl
  copies := ⟨[], (List.append_nil _).symm, rfl⟩

/-- Copies added one after the other. -/
theorem Copied.cons {t₁ : Tree} (h₁ : Copied fresh p [v] t t₁) (h' : Copied fresh p vs t₁ t') :
    Copied fresh p (v :: vs) t t' := by
  have hsize₁ := h₁.size
  rw [List.flatMap_singleton] at hsize₁
  refine ⟨h'.unbroken, ?_, fun x hx => ?_, fun x hx => ?_, fun x hx hne => ?_, ?_⟩
  · rw [h'.size, hsize₁, List.flatMap_cons, List.length_append, Nat.add_assoc]
  · rw [h'.kind x (h₁.has hx), h₁.kind x hx]
  · rw [h'.serial x (h₁.has hx), h₁.serial x hx]
  · rw [h'.children x (h₁.has hx) hne, h₁.children x hx hne]
  · obtain ⟨new₁, hnew₁, hview₁⟩ := h₁.copies
    obtain ⟨new, hnew, hview⟩ := h'.copies
    have hc := h₁.unbroken.consistent
    refine ⟨new₁ ++ new, by rw [hnew, hnew₁, List.append_assoc], ?_⟩
    have hsame : new₁.map t'.view = new₁.map t₁.view := by
      refine List.map_congr_left fun y hy => ?_
      have hpy : t₁.parent y = some p :=
        (hc.mem_children p y).mp (by rw [hnew₁]; exact List.mem_append_right _ hy)
      exact h'.view_eq hc (has_of_parent hpy) (hc.not_reaches_parent hpy)
    rw [List.map_append, hsame, hview₁, hview, hsize₁]
    rfl

/-- A new node with copies below it is a copy of the node and all below it. -/
theorem Unbroken.copied_node (h : t.Unbroken fresh) (hp : t.Has p) {ref : NodeRef} {serial : ℕ}
    {kind : NodeKind} {children : List View}
    (h' : Copied fresh ⟨t.nodes.size⟩ children (t.grown p kind) t') :
    Copied fresh p [.node ref serial kind children] t t' := by
  have hgrown : ∀ {x}, t.Has x → (t.grown p kind).Has x := fun hx => has_grown_iff.mpr (.inl hx)
  have hnew : (t.grown p kind).Has ⟨t.nodes.size⟩ := has_grown_iff.mpr (.inr rfl)
  refine ⟨h'.unbroken, ?_, fun x hx => ?_, fun x hx => ?_, fun x hx hne => ?_, [⟨t.nodes.size⟩], ?_⟩
  · rw [h'.size, size_grown, List.flatMap_singleton, View.nodes_node, List.length_cons]
    omega
  · rw [h'.kind x (hgrown hx), kind_grown, if_neg hx.ne_size]
  · rw [h'.serial x (hgrown hx), serial_grown, if_neg hx.ne_size]
  · rw [h'.children x (hgrown hx) hx.ne_size, children_grown hp, if_neg hne]
  · have hchildren : (t.grown p kind).children ⟨t.nodes.size⟩ = [] := by
      rw [children_grown hp, if_neg hp.ne_size.symm]
      exact List.eq_nil_iff_forall_not_mem.mpr fun c hc =>
        (has_of_mem_children hc).ne_size rfl
    obtain ⟨new, heq, hview⟩ := h'.copies
    rw [hchildren, List.nil_append] at heq
    refine ⟨?_, ?_⟩
    · rw [h'.children p (hgrown hp) hp.ne_size, children_grown hp, if_pos rfl]
    · have hserial : t'.serial ⟨t.nodes.size⟩ = fresh + t.nodes.size := by
        rw [h'.serial _ hnew, serial_grown, if_pos rfl, h.next]
      rw [List.map_singleton, h'.unbroken.consistent.view_eq, hserial, h'.kind _ hnew, kind_grown,
        if_pos rfl, heq, hview, size_grown]
      rfl

theorem Unbroken.grown (h : t.Unbroken fresh) (hp : t.Has p) (k : NodeKind) :
    (t.grown p k).Unbroken fresh := by
  obtain ⟨hc, -⟩ := h.consistent.evolves_grown hp k
  refine ⟨hc, ?_⟩
  have hfresh : (t.grown p k).fresh = t.fresh + 1 := rfl
  rw [hfresh, size_grown, h.next]
  omega

mutual

theorem Unbroken.copied_addCopy : ∀ (v : View) {t : Tree} {p : NodeRef}, t.Unbroken fresh →
    t.Has p → Copied fresh p [v] t (t.addCopy p v)
  | .node _ _ kind children, t, p, h, hp => by
    rw [addCopy, addUnchecked_eq]
    exact h.copied_node hp ((h.grown hp kind).copied_addCopies children
      (has_grown_iff.mpr (.inr rfl)))

theorem Unbroken.copied_addCopies : ∀ (vs : List View) {t : Tree} {p : NodeRef},
    t.Unbroken fresh → t.Has p → Copied fresh p vs t (t.addCopies p vs)
  | [], t, p, h, hp => by
    rw [addCopies]
    exact h.copied_refl
  | v :: rest, t, p, h, hp => by
    have hcopy := h.copied_addCopy v hp
    rw [addCopies]
    exact hcopy.cons (hcopy.unbroken.copied_addCopies rest (hcopy.has hp))

end

theorem addCopies_append (t : Tree) (p : NodeRef) (vs ws : List View) :
    t.addCopies p (vs ++ ws) = (t.addCopies p vs).addCopies p ws := by
  induction vs generalizing t with
  | nil => rw [List.nil_append, addCopies]
  | cons v vs ih => rw [List.cons_append, addCopies, addCopies, ih]

theorem unbroken_new (fresh : ℕ) : (new fresh).Unbroken fresh :=
  ⟨(loaded_new fresh).consistent, rfl⟩

/-- Copies of the views below a root make a tree that shows them all. -/
theorem view_addCopies_new (fresh : ℕ) (vs : List View) :
    ((new fresh).addCopies root vs).view root =
      (View.node root 0 .fileSet vs).numbered fresh 0 := by
  have hnew := unbroken_new fresh
  have h := hnew.copied_addCopies vs hnew.consistent.has_root
  have hroot := hnew.consistent.has_root
  obtain ⟨new, heq, hview⟩ := h.copies
  rw [children_new, List.nil_append] at heq
  have hserial : (Tree.new fresh).serial root = fresh := rfl
  have hkind : (Tree.new fresh).kind root = .fileSet := rfl
  rw [h.unbroken.consistent.view_eq, h.serial _ hroot, h.kind _ hroot, heq, hview, hserial, hkind]
  rfl

end TemplateLang.Tree
