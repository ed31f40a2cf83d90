/-! Powers of two, by which magnitudes are rounded, and of ten, by which they are read and
written. -/

namespace TemplateLang

def twoTo (n : Nat) : Nat := Nat.pow 2 n

def tenTo (n : Nat) : Nat := Nat.pow 10 n

theorem twoTo_pos (n : Nat) : 0 < twoTo n := Nat.two_pow_pos n

theorem twoTo_add (m n : Nat) : twoTo (m + n) = twoTo m * twoTo n := Nat.pow_add 2 m n

theorem twoTo_dvd_twoTo {m n : Nat} (h : m ≤ n) : twoTo m ∣ twoTo n := Nat.pow_dvd_pow 2 h

theorem log2_twoTo (n : Nat) : (twoTo n).log2 = n := Nat.log2_two_pow

/-- A number has at most `n` binary digits when it is below `twoTo n`. -/
theorem log2_lt_iff {m : Nat} (hm : m ≠ 0) (n : Nat) : m.log2 < n ↔ m < twoTo n :=
  Nat.log2_lt hm

end TemplateLang
