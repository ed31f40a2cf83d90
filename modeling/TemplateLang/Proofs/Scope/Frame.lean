import TemplateLang.Scope.Basic

/-! The frame of a scope: what an entry opens, what binding slots leaves in it, and which guard
closes it. A frame is described by the list of its bindings, the first of them first; looking
up a slot in either gives the same. -/

namespace TemplateLang

variable {s : Scope} {f : Frame} {b : Binding} {bs bindings : List Binding}

/-! ### Bindings -/

/-- The bindings up to the first for a slot that is taken. -/
def admitted (taken bindings : List Binding) : List Binding :=
  bindings.takeWhile fun b => !taken.any (·.slot = b.slot)

/-- Looking up a slot gives the same in the frame as in the list. -/
def Lookups (f : Frame) (bs : List Binding) : Prop :=
  ∀ slot, f.find? (·.slot = slot) = bs.find? (·.slot = slot)

theorem Lookups.any_eq (h : Lookups f bs) (slot : Slot) :
    f.any (·.slot = slot) = bs.any (·.slot = slot) := by
  rw [← List.isSome_find?, ← List.isSome_find?, h slot]

theorem Lookups.cons (h : Lookups f bs) (hb : f.any (·.slot = b.slot) = false) :
    Lookups (b :: f) (bs ++ [b]) := by
  intro slot
  rw [List.find?_append, List.find?_cons, ← h slot]
  by_cases hslot : b.slot = slot
  · obtain rfl := hslot
    have hnone : f.find? (·.slot = b.slot) = none := by
      rw [← Option.not_isSome_iff_eq_none, List.isSome_find?, hb]
      exact Bool.false_ne_true
    rw [hnone]
    simp
  · simp [hslot]

/-- Once a binding is made, bindings for other slots are admitted as before. -/
theorem admitted_append (hb : ∀ b' ∈ bindings, b.slot ≠ b'.slot) :
    admitted (bs ++ [b]) bindings = admitted bs bindings := by
  induction bindings with
  | nil => rfl
  | cons b' bindings ih =>
    have hne := hb b' (List.mem_cons_self ..)
    have hrest := ih fun c hc => hb c (List.mem_cons_of_mem _ hc)
    unfold admitted at hrest ⊢
    rw [List.takeWhile_cons, List.takeWhile_cons, hrest]
    simp [hne]

namespace Scope

/-! ### Entries, exits and guards -/

theorem enter_of_none (hf : s.frame = none) :
    s.enter = .ok (⟨s.generation + 1⟩, ⟨some [], s.generation + 1⟩) := by
  rw [enter, hf]

theorem enter_of_some (hf : s.frame = some f) : s.enter = .error .scopeReentry := by
  rw [enter, hf]

theorem exit_of_none (hf : s.frame = none) : s.exit = s := by
  rw [exit, ← hf]

theorem drop_of_none (hf : s.frame = none) (g : Guard) : s.drop g = s := by
  rw [drop, exit_of_none hf, ite_self]

theorem drop_generation (s : Scope) (g : Guard) : (s.drop g).generation = s.generation := by
  rw [drop]
  split
  · rfl
  · rfl

/-! ### Binding slots -/

theorem seed_of_none (hf : s.frame = none) (b : Binding) :
    s.seed b = .error (.scopeNotEntered b.slot) := by
  rw [seed, hf]

theorem seed_of_taken (hf : s.frame = some f) (hb : f.any (·.slot = b.slot) = true) :
    s.seed b = .error (.duplicateSeed b.slot) := by
  rw [seed, hf]
  exact if_pos hb

theorem seed_of_free (hf : s.frame = some f) (hb : f.any (·.slot = b.slot) = false) :
    s.seed b = .ok { s with frame := some (b :: f) } := by
  rw [seed, hf]
  exact if_neg (by rw [hb]; exact Bool.false_ne_true)

/-- Outside a frame nothing is bound. -/
theorem seedAll_of_none (hf : s.frame = none) (bindings : List Binding) :
    (s.seedAll bindings).2 = s := by
  cases bindings with
  | nil => rfl
  | cons b bindings => rw [seedAll, seed_of_none hf b]

/-- Binding slots of a frame makes the bindings that are admitted, and nothing else. -/
theorem seedAll_eq (hf : s.frame = some f) (h : Lookups f bs)
    (hslots : bindings.Pairwise fun b b' => b.slot ≠ b'.slot) :
    ∃ f', (s.seedAll bindings).2 = { s with frame := some f' } ∧
      Lookups f' (bs ++ admitted bs bindings) := by
  induction bindings generalizing s f bs with
  | nil =>
    refine ⟨f, ?_, by simpa [admitted] using h⟩
    rw [seedAll, ← hf]
  | cons b bindings ih =>
    obtain ⟨hb, hslots⟩ := List.pairwise_cons.mp hslots
    have hany := h.any_eq b.slot
    rw [admitted, List.takeWhile_cons, ← hany, seedAll]
    cases hfree : f.any (·.slot = b.slot) with
    | true =>
      rw [seed_of_taken hf hfree]
      exact ⟨f, by rw [← hf], by simpa using h⟩
    | false =>
      rw [seed_of_free hf hfree]
      obtain ⟨f', heq, h'⟩ := ih (s := { s with frame := some (b :: f) }) rfl (h.cons hfree) hslots
      rw [admitted_append hb, List.append_assoc, List.singleton_append] at h'
      exact ⟨f', heq, h'⟩

/-- Binding slots enters no frame. -/
theorem seedAll_generation (s : Scope) (bindings : List Binding) :
    (s.seedAll bindings).2.generation = s.generation := by
  induction bindings generalizing s with
  | nil => rfl
  | cons b bindings ih =>
    rw [seedAll]
    cases hf : s.frame with
    | none => rw [seed_of_none hf]
    | some f =>
      cases hb : f.any (·.slot = b.slot) with
      | true => rw [seed_of_taken hf hb]
      | false => rw [seed_of_free hf hb]; exact ih _

end Scope

end TemplateLang
