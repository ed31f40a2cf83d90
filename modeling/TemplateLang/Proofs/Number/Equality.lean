import TemplateLang.Number.Basic

/-! Equality of numbers. It is symmetric and transitive, and only `nan` differs from itself. -/

namespace TemplateLang.Number

variable {n n' n'' : Number}

theorem equals_comm (n n' : Number) : n.equals n' = n'.equals n := by
  cases n <;> cases n' <;> simp only [equals]
  · exact decide_eq_decide.mpr eq_comm
  · next s a t b =>
    by_cases hab : a.units = b.units
    · simp [hab, eq_comm]
    · simp [hab, Ne.symm hab]

theorem equals_trans (h : n.equals n') (h' : n'.equals n'') : n.equals n'' := by
  cases n <;> cases n' <;> cases n'' <;> simp_all [equals]
  grind

theorem equals_self_iff (n : Number) : n.equals n ↔ n ≠ .nan := by
  cases n <;> simp [equals]

end TemplateLang.Number
