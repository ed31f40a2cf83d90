import Mathlib.Data.List.Basic
import TemplateLang.Tree.View

/-! What the operations on an arena leave and change. A handle of no node has no parent and no
children, and changing such a node changes nothing. -/

namespace TemplateLang.Tree

variable {t : Tree} {n x : NodeRef}

/-- The handle is that of a node of the arena. -/
def Has (t : Tree) (n : NodeRef) : Prop := n.index < t.nodes.size

instance : Decidable (t.Has n) := inferInstanceAs (Decidable (_ < _))

theorem node_of_not_has (h : ¬ t.Has n) : t.node n = absent := by
  rw [node, Array.getElem?_eq_none (Nat.not_lt.mp h)]
  rfl

theorem has_of_parent {p : NodeRef} (h : t.parent n = some p) : t.Has n := by
  by_contra hn
  rw [parent, node_of_not_has hn] at h
  simp [absent] at h

theorem has_of_mem_children (h : x ∈ t.children n) : t.Has n := by
  by_contra hn
  rw [children, node_of_not_has hn] at h
  simp [absent] at h

theorem has_of_isContainer (h : (t.kind n).isContainer) : t.Has n := by
  by_contra hn
  rw [kind, node_of_not_has hn] at h
  exact absurd h (by decide)

/-! ### Changes of one node -/

@[simp] theorem size_nodes_modify (t : Tree) (n : NodeRef) (f : Node → Node) :
    (t.modify n f).nodes.size = t.nodes.size := by simp [modify]

theorem node_modify (t : Tree) (n x : NodeRef) (f : Node → Node) :
    (t.modify n f).node x = if x = n ∧ t.Has n then f (t.node x) else t.node x := by
  simp only [node, modify, Array.getElem?_modify]
  by_cases hx : x = n
  · subst hx
    by_cases hn : t.Has x
    · simp [hn, Array.getElem?_eq_getElem (show x.index < t.nodes.size from hn)]
    · simp [hn, Array.getElem?_eq_none (Nat.not_lt.mp hn)]
  · have hi : n.index ≠ x.index := fun h => hx (congrArg NodeRef.mk h.symm)
    simp [hx, hi]

theorem kind_setKind (t : Tree) (n x : NodeRef) (k : NodeKind) :
    (t.setKind n k).kind x = if x = n ∧ t.Has n then k else t.kind x := by
  rw [kind, setKind, node_modify]
  split_ifs <;> rfl

@[simp] theorem parent_setKind (t : Tree) (n x : NodeRef) (k : NodeKind) :
    (t.setKind n k).parent x = t.parent x := by
  rw [parent, setKind, node_modify]
  split_ifs <;> rfl

@[simp] theorem children_setKind (t : Tree) (n x : NodeRef) (k : NodeKind) :
    (t.setKind n k).children x = t.children x := by
  rw [children, setKind, node_modify]
  split_ifs <;> rfl

@[simp] theorem serial_setKind (t : Tree) (n x : NodeRef) (k : NodeKind) :
    (t.setKind n k).serial x = t.serial x := by
  rw [serial, setKind, node_modify]
  split_ifs <;> rfl

theorem parent_setParent (t : Tree) (n x : NodeRef) (p : Option NodeRef) :
    (t.setParent n p).parent x = if x = n ∧ t.Has n then p else t.parent x := by
  rw [parent, setParent, node_modify]
  split_ifs <;> rfl

@[simp] theorem kind_setParent (t : Tree) (n x : NodeRef) (p : Option NodeRef) :
    (t.setParent n p).kind x = t.kind x := by
  rw [kind, setParent, node_modify]
  split_ifs <;> rfl

@[simp] theorem children_setParent (t : Tree) (n x : NodeRef) (p : Option NodeRef) :
    (t.setParent n p).children x = t.children x := by
  rw [children, setParent, node_modify]
  split_ifs <;> rfl

@[simp] theorem serial_setParent (t : Tree) (n x : NodeRef) (p : Option NodeRef) :
    (t.setParent n p).serial x = t.serial x := by
  rw [serial, setParent, node_modify]
  split_ifs <;> rfl

theorem children_setChildren (t : Tree) (n x : NodeRef) (cs : List NodeRef) :
    (t.setChildren n cs).children x = if x = n ∧ t.Has n then cs else t.children x := by
  rw [children, setChildren, node_modify]
  split_ifs <;> rfl

@[simp] theorem kind_setChildren (t : Tree) (n x : NodeRef) (cs : List NodeRef) :
    (t.setChildren n cs).kind x = t.kind x := by
  rw [kind, setChildren, node_modify]
  split_ifs <;> rfl

@[simp] theorem parent_setChildren (t : Tree) (n x : NodeRef) (cs : List NodeRef) :
    (t.setChildren n cs).parent x = t.parent x := by
  rw [parent, setChildren, node_modify]
  split_ifs <;> rfl

@[simp] theorem serial_setChildren (t : Tree) (n x : NodeRef) (cs : List NodeRef) :
    (t.setChildren n cs).serial x = t.serial x := by
  rw [serial, setChildren, node_modify]
  split_ifs <;> rfl

@[simp] theorem size_nodes_setKind (t : Tree) (n : NodeRef) (k : NodeKind) :
    (t.setKind n k).nodes.size = t.nodes.size := size_nodes_modify ..

@[simp] theorem size_nodes_setParent (t : Tree) (n : NodeRef) (p : Option NodeRef) :
    (t.setParent n p).nodes.size = t.nodes.size := size_nodes_modify ..

@[simp] theorem size_nodes_setChildren (t : Tree) (n : NodeRef) (cs : List NodeRef) :
    (t.setChildren n cs).nodes.size = t.nodes.size := size_nodes_modify ..

/-! ### New nodes -/

@[simp] theorem create_fst (t : Tree) (k : NodeKind) : (t.create k).1 = ⟨t.nodes.size⟩ := rfl

@[simp] theorem size_nodes_create (t : Tree) (k : NodeKind) :
    (t.create k).2.nodes.size = t.nodes.size + 1 := by simp [create]

theorem node_create (t : Tree) (k : NodeKind) (x : NodeRef) :
    (t.create k).2.node x =
      if x = ⟨t.nodes.size⟩ then ⟨t.fresh, k, none, []⟩ else t.node x := by
  simp only [node, create, Array.getElem?_push]
  by_cases hx : x = ⟨t.nodes.size⟩
  · simp [hx]
  · have hi : x.index ≠ t.nodes.size := fun h => hx (congrArg NodeRef.mk h)
    simp [hx, hi]

theorem kind_create (t : Tree) (k : NodeKind) (x : NodeRef) :
    (t.create k).2.kind x = if x = ⟨t.nodes.size⟩ then k else t.kind x := by
  rw [kind, node_create]
  split_ifs <;> rfl

/-- The handle of a new node was no handle before. -/
theorem node_size (t : Tree) : t.node ⟨t.nodes.size⟩ = absent :=
  node_of_not_has (Nat.lt_irrefl _)

@[simp] theorem parent_create (t : Tree) (k : NodeKind) (x : NodeRef) :
    (t.create k).2.parent x = t.parent x := by
  rw [parent, node_create]
  split_ifs with hx
  · rw [hx, parent, node_size]
    rfl
  · rfl

@[simp] theorem children_create (t : Tree) (k : NodeKind) (x : NodeRef) :
    (t.create k).2.children x = t.children x := by
  rw [children, node_create]
  split_ifs with hx
  · rw [hx, children, node_size]
    rfl
  · rfl

theorem serial_create (t : Tree) (k : NodeKind) (x : NodeRef) :
    (t.create k).2.serial x = if x = ⟨t.nodes.size⟩ then t.fresh else t.serial x := by
  rw [serial, node_create]
  split_ifs <;> rfl

/-- A node stays in the arena. -/
theorem Has.create (h : t.Has x) (k : NodeKind) : (t.create k).2.Has x := by
  have := size_nodes_create t k
  unfold Has at *
  omega

theorem Has.ne_size (h : t.Has x) : x ≠ ⟨t.nodes.size⟩ := by
  rintro rfl
  exact Nat.lt_irrefl _ h

end TemplateLang.Tree
