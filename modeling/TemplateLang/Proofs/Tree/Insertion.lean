import TemplateLang.Proofs.Tree.Queries
import TemplateLang.Tree.Steps

/-! Insertion is one move. In a consistent tree a child of the parent stands in its list of
children, so counting it out never goes below zero; and once it is taken out, the list is as long
as was counted, so the place exists. The checks come before the first change, and what they let
through is carried out. -/

namespace TemplateLang

variable {t t' : Tree} {c n p x : NodeRef} {i : ℕ} {f : Forest}
  {operations : List Forest.Operation}

namespace Tree

/-- The children of `p` besides `c`. -/
def others (t : Tree) (p c : NodeRef) : List NodeRef := (t.children p).filter (· ≠ c)

/-- In the second tree `c` stands at index `i` below `p`, and everything else is as in the first. -/
structure Moved (t t' : Tree) (p : NodeRef) (i : ℕ) (c : NodeRef) : Prop where
  children_parent : t'.children p = (t.others p c).insertIdx i c
  children : ∀ x, x ≠ p → t'.children x = t.others x c
  parent_child : t'.parent c = some p
  parent : ∀ x, x ≠ c → t'.parent x = t.parent x
  nodes : SameNodes t t'
  fresh : t'.fresh = t.fresh

/-- What steps leave that come to the same as an operation on trees. -/
def carriedOut (t : Tree) : Except TreeError Tree → Except TreeError Unit × Tree
  | .ok t' => (.ok (), t')
  | .error e => (.error e, t)

namespace Consistent

theorem children_detach_eq (h : t.Consistent) (c x : NodeRef) :
    (t.detach c).2.children x = t.others x c := by
  rw [h.children_detach, (h.nodup_children x).erase_eq_filter, others]
  exact List.filter_congr fun d _ => by simp [bne, Bool.beq_eq_decide_eq]

theorem otherChildren_eq (h : t.Consistent) (p c : NodeRef) :
    t.otherChildren p c = (t.others p c).length := by
  rw [← h.length_children_detach, h.children_detach_eq]

/-- A child is one of the children of its parent. -/
theorem length_children_pos (h : t.Consistent) (hp : t.parent c = some p) :
    0 < (t.children p).length :=
  List.length_pos_of_mem ((h.mem_children p c).mpr hp)

theorem moved_of_insertChild (h : t.Consistent) (hc : t.Has c)
    (heq : t.insertChild p i c = .ok t') : Moved t t' p i c := by
  obtain ⟨hp, -, -, -, rfl⟩ := insertChild_eq_ok.mp heq
  have hnodes := sameNodes_detach t c
  have hhas : (t.detach c).2.Has p := hnodes.has.mpr (has_of_isContainer hp)
  refine ⟨?_, fun x hx => ?_, ?_, fun x hx => ?_, sameNodes_insertChild heq, fresh_detach t c⟩
  · rw [children_placed hhas, if_pos rfl, h.children_detach_eq]
  · rw [children_placed hhas, if_neg hx, h.children_detach_eq]
  · rw [parent_placed (hnodes.has.mpr hc), if_pos rfl]
  · rw [parent_placed (hnodes.has.mpr hc), if_neg hx, h.parent_detach, if_neg hx]

theorem insertChild_succeeds_iff (h : t.Consistent) :
    (∃ t', t.insertChild p i c = .ok t') ↔
      (t.kind p).isContainer ∧ c ≠ root ∧ ¬ t.Reaches c p ∧ i ≤ (t.others p c).length := by
  simp only [insertChild_eq_ok, exists_and_left, exists_eq, and_true, ← h.isAncestorOrSelf_iff,
    Bool.not_eq_true, h.otherChildren_eq]

end Consistent

end Tree

/-! ### Steps -/

namespace Steps

variable {α β : Type}

@[simp] theorem result_pure (a : α) (t : Tree) : result (pure a) t = some (.ok a, t) := rfl

@[simp] theorem result_get (f : Tree → Steps α) (t : Tree) :
    result (do let t ← get; f t) t = result (f t) t := rfl

@[simp] theorem result_modify (g : Tree → Tree) (t : Tree) :
    result (modify g) t = some (.ok (), g t) := rfl

@[simp] theorem result_set (t t' : Tree) : result (set t') t = some (.ok (), t') := rfl

@[simp] theorem result_throw (e : TreeError) (t : Tree) :
    result (throw e : Steps α) t = some (.error e, t) := rfl

/-- Steps behind others that come to something. -/
theorem result_bind {s : Steps α} {a : α} {t t' : Tree} (h : result s t = some (.ok a, t'))
    (f : α → Steps β) : result (s >>= f) t = result (f a) t' := by
  rw [result] at h
  show ((s.run >>= _).run t) = _
  rw [StateT.run_bind, h]
  rfl

end Steps

namespace Tree

namespace Consistent

theorem result_lastPlace (h : t.Consistent) (p c : NodeRef) :
    Steps.result (Steps.lastPlace p c) t = some (.ok (t.others p c).length, t) := by
  rw [← h.otherChildren_eq, otherChildren]
  by_cases hp : t.parent c = some p
  · obtain ⟨k, hk⟩ := Nat.exists_eq_add_of_lt (h.length_children_pos hp)
    rw [Nat.zero_add] at hk
    simp [Steps.lastPlace, Steps.predecessor, hp, hk]
  · simp [Steps.lastPlace, hp]

/-- The steps of an insertion do not get stuck, and a refusal comes before any change. -/
theorem result_insertChild (h : t.Consistent) (p : NodeRef) (i : ℕ) (c : NodeRef) :
    Steps.result (Steps.insertChild p i c) t = some (t.carriedOut (t.insertChild p i c)) := by
  have hlast := h.result_lastPlace p c
  rw [← h.otherChildren_eq] at hlast
  rw [Steps.insertChild, Steps.result_get]
  unfold Tree.insertChild
  split_ifs with hp hroot habove hi
  · rfl
  · rfl
  · rfl
  · rw [Steps.result_bind hlast, if_pos hi, Steps.result_throw, carriedOut]
  · have hput : ¬ ((t.detach c).2.children p).length < i := by
      rwa [h.length_children_detach]
    rw [Steps.result_bind hlast, if_neg hi, Steps.result_bind (Steps.result_modify _ _),
      Steps.putChild]
    simp only [bind_assoc, Steps.result_get]
    rw [if_neg hput, Steps.result_bind (Steps.result_set _ _), Steps.result_modify, carriedOut]

/-- Appending is inserting at the last place. -/
theorem appendChild_eq (h : t.Consistent) (p c : NodeRef) :
    t.appendChild p c = t.insertChild p (t.others p c).length c := by
  rw [appendChild, h.otherChildren_eq]

theorem result_appendChild (h : t.Consistent) (p c : NodeRef) :
    Steps.result (Steps.appendChild p c) t = some (t.carriedOut (t.appendChild p c)) := by
  rw [Steps.appendChild, Steps.result_bind (h.result_lastPlace p c), h.result_insertChild,
    h.appendChild_eq]

end Consistent

/-! ### One move -/

/-- On every tree that a run of operations leads to, an insertion succeeds on four conditions and is
one move then; the steps that carry it out do not get stuck, and leave the tree as it was when
it is refused. Appending is inserting at the last place, below another parent and below the own. -/
theorem insertChild_moves (hrun : Forest.run operations = some f) (ht : t ∈ f.trees)
    (hc : t.Has c) :
    ((∃ t', t.insertChild p i c = .ok t') ↔
      (t.kind p).isContainer ∧ c ≠ root ∧ ¬ t.Reaches c p ∧ i ≤ (t.others p c).length) ∧
    (∀ t', t.insertChild p i c = .ok t' → Moved t t' p i c ∧
      Steps.result (Steps.insertChild p i c) t = some (.ok (), t')) ∧
    (∀ e, t.insertChild p i c = .error e →
      Steps.result (Steps.insertChild p i c) t = some (.error e, t)) ∧
    t.appendChild p c = t.insertChild p (t.others p c).length c ∧
    Steps.result (Steps.appendChild p c) t =
      Steps.result (Steps.insertChild p (t.others p c).length c) t := by
  have h := (Forest.sound_of_run hrun).consistent t ht
  refine ⟨h.insertChild_succeeds_iff, fun t' heq => ⟨h.moved_of_insertChild hc heq, ?_⟩,
    fun e heq => ?_, h.appendChild_eq p c, ?_⟩
  · rw [h.result_insertChild, heq, carriedOut]
  · rw [h.result_insertChild, heq, carriedOut]
  · rw [h.result_appendChild, h.result_insertChild, h.appendChild_eq]

/-- The first text goes to the end of its own template, where there are two places for it. -/
theorem insertChild_moves_behind : Forest.run rearranged = some ⟨[rearrangedTree], 6⟩ ∧
    rearrangedTree.Has ⟨5⟩ ∧
    (∃ t', rearrangedTree.insertChild ⟨2⟩ 1 ⟨5⟩ = .ok t' ∧ t'.children ⟨2⟩ = [⟨3⟩, ⟨5⟩] ∧
      rearrangedTree.appendChild ⟨2⟩ ⟨5⟩ = .ok t') ∧
    ¬ ∃ t', rearrangedTree.insertChild ⟨2⟩ 2 ⟨5⟩ = .ok t' := by
  have hhas : rearrangedTree.Has ⟨5⟩ := by decide
  have hall := fun i => insertChild_moves (p := ⟨2⟩) (i := i) run_rearranged
    (List.mem_singleton_self rearrangedTree) hhas
  have hothers : rearrangedTree.others ⟨2⟩ ⟨5⟩ = [⟨3⟩] := by decide
  have hnot : ¬ rearrangedTree.Reaches ⟨5⟩ ⟨2⟩ := by
    have h := (Forest.sound_of_run run_rearranged).consistent _
      (List.mem_singleton_self rearrangedTree)
    rw [← h.isAncestorOrSelf_iff]
    decide
  obtain ⟨hsucceeds, hmoved, -, happend, -⟩ := hall 1
  obtain ⟨t', ht'⟩ := hsucceeds.mpr ⟨by decide, by decide, hnot, by decide⟩
  refine ⟨run_rearranged, hhas, ⟨t', ht', ?_, ?_⟩, fun hsecond => ?_⟩
  · rw [(hmoved t' ht').1.children_parent, hothers]
    rfl
  · rw [happend, hothers]
    exact ht'
  · have hle := ((hall 2).1.mp hsecond).2.2.2
    rw [hothers] at hle
    exact absurd hle (by decide)

end Tree

end TemplateLang
