import Mathlib.Data.Int.Basic
import Mathlib.Data.List.Basic
import Mathlib.Data.List.Induction
import Mathlib.Tactic.Ring
import TemplateLang.Number.Layout
import TemplateLang.Number.Reading

/-! The text of a number. A finite number is written with an optional minus, a whole part that has
no leading zero, and an optional point with digits behind it. The shortest decimal of a
magnitude never begins with zero, since every grid on which it is searched is at least as fine
as the first digit of the magnitude. -/

namespace TemplateLang

variable {n c : ℕ} {step : ℤ} {m : Magnitude} {tie : Tie}

/-- The whole part of a decimal, and its fraction together with the point. -/
structure IsDecimal (whole fraction : List Char) : Prop where
  ne_nil : whole ≠ []
  digits : ∀ c ∈ whole, c.isDigit
  no_leading_zero : whole.head? = some '0' → whole = ['0']
  fraction : fraction = [] ∨ ∃ ds, fraction = '.' :: ds ∧ ds ≠ [] ∧ ∀ c ∈ ds, c.isDigit

theorem isDecimal_of_head? {whole fraction : List Char}
    (hhead : ∃ x, whole.head? = some x ∧ x ≠ '0') (hdigits : ∀ c ∈ whole, c.isDigit)
    (hfraction : fraction = [] ∨ ∃ ds, fraction = '.' :: ds ∧ ds ≠ [] ∧ ∀ c ∈ ds, c.isDigit) :
    IsDecimal whole fraction := by
  obtain ⟨x, hx, hne⟩ := hhead
  refine ⟨?_, hdigits, fun h => ?_, hfraction⟩
  · rintro rfl
    cases hx
  · rw [hx] at h
    exact absurd (Option.some.inj h) hne

/-- A decimal with the whole number that its digits make, and how many of them stand behind the
point. -/
structure Denotes (whole behind : List Char) (v places : ℕ) : Prop
    extends IsDecimal whole behind where
  value_eq : Decimal.value ((whole ++ behind.drop 1).map digitValue) = v
  places_eq : (behind.drop 1).length = places

/-! ### Digits -/

theorem tenTo_pos (n : ℕ) : 0 < tenTo n := Nat.pow_pos (by decide)

theorem tenTo_add (m n : ℕ) : tenTo (m + n) = tenTo m * tenTo n := Nat.pow_add 10 m n

namespace Decimal

@[simp] theorem value_nil : value [] = 0 := rfl

theorem value_append (xs ys : List ℕ) :
    value (xs ++ ys) = value xs * tenTo ys.length + value ys := by
  induction ys using List.reverseRecOn with
  | nil => simp [tenTo]
  | append_singleton ys d ih =>
    have hlast : ∀ zs : List ℕ, value (zs ++ [d]) = 10 * value zs + d := fun zs => by
      simp [value, List.foldl_append]
    rw [← List.append_assoc, hlast, hlast, ih, List.length_append, tenTo_add]
    rw [show tenTo [d].length = 10 from rfl]
    ring

theorem value_replicate_zero (k : ℕ) : value (List.replicate k 0) = 0 := by
  induction k with
  | zero => rfl
  | succ k ih =>
    rw [List.replicate_succ]
    exact ih

theorem length_pos (n : ℕ) : 0 < length n := by
  rw [length]
  split <;> omega

/-- A number is at least the power of ten of its first digit. -/
theorem tenTo_length_le (hn : 0 < n) : tenTo (length n - 1) ≤ n := by
  induction n using Nat.strongRecOn with
  | ind n ih =>
    rw [length]
    split
    · exact hn
    · have hlen := length_pos (n / 10)
      have hstep := ih (n / 10) (by omega) (by omega)
      have hten : tenTo (length (n / 10) + 1 - 1) = tenTo (length (n / 10) - 1) * 10 := by
        rw [show length (n / 10) + 1 - 1 = length (n / 10) - 1 + 1 by omega, tenTo_add]
        rfl
      omega

/-- A number is below the power of ten that its digits leave free. -/
theorem lt_tenTo_length (n : ℕ) : n < tenTo (length n) := by
  induction n using Nat.strongRecOn with
  | ind n ih =>
    have hten : tenTo 1 = 10 := rfl
    rw [length]
    split
    · omega
    · have hstep := ih (n / 10) (by omega)
      rw [tenTo_add, hten]
      omega

/-- Digits of which the first is not zero. -/
structure Proper (digits : List ℕ) : Prop where
  lt : ∀ d ∈ digits, d < 10
  first : ∃ d ds, digits = d :: ds ∧ d ≠ 0

theorem proper_digitsOnto (hn : 0 < n) {rest : List ℕ} (hrest : ∀ d ∈ rest, d < 10) :
    Proper (digitsOnto n rest) := by
  induction n using Nat.strongRecOn generalizing rest with
  | ind n ih =>
    rw [digitsOnto]
    split
    · next hlt => exact ⟨by simpa using ⟨hlt, hrest⟩, n, rest, rfl, by omega⟩
    · exact ih (n / 10) (by omega) (by omega) (by simpa using ⟨by omega, hrest⟩)

/-- Dropping trailing zeros leaves the first digit. -/
theorem Proper.strip {digits : List ℕ} (h : Proper digits) :
    Proper (digits.reverse.dropWhile (· = 0)).reverse := by
  obtain ⟨d, ds, rfl, hd⟩ := h.first
  constructor
  · intro x hx
    have hmem := (List.dropWhile_sublist (· = 0)).mem (List.mem_reverse.mp hx)
    exact h.lt x (List.mem_reverse.mp hmem)
  · rw [List.reverse_cons, List.dropWhile_append]
    split
    · exact ⟨d, [], by simp [hd], hd⟩
    · exact ⟨d, _, by rw [List.reverse_append]; rfl, hd⟩

/-- The power of ten of the last digit. -/
def scale (d : Decimal) : ℤ := d.exponent + 1 - d.digits.length

theorem Proper.ne_nil {digits : List ℕ} (h : Proper digits) : digits ≠ [] := by
  obtain ⟨d, ds, rfl, -⟩ := h.first
  exact List.cons_ne_nil d ds

theorem proper_ofScaled (hc : 0 < c) (step : ℤ) : Proper (ofScaled c step).digits :=
  (proper_digitsOnto hc (by simp)).strip

end Decimal

/-! ### The shortest decimal -/

namespace Magnitude

theorem one_le_tenTo : one ≤ tenTo 324 := by decide +kernel

/-- Moving a bound by powers of ten to other exponents. -/
theorem mul_tenTo_le {o u k first s r : ℕ} (h : o * tenTo first ≤ u * tenTo k)
    (hexp : s + k ≤ first + r) : o * tenTo s ≤ u * tenTo r := by
  refine Nat.le_of_mul_le_mul_right ?_ (tenTo_pos k)
  calc o * tenTo s * tenTo k = o * tenTo (s + k) := by rw [tenTo_add, Nat.mul_assoc]
    _ ≤ o * tenTo (first + r) := Nat.mul_le_mul_left _ (Nat.pow_le_pow_right (by decide) hexp)
    _ = o * tenTo first * tenTo r := by rw [tenTo_add, Nat.mul_assoc]
    _ ≤ u * tenTo k * tenTo r := Nat.mul_le_mul_right _ h
    _ = u * tenTo r * tenTo k := Nat.mul_right_comm ..

/-- A magnitude is at least as large as a step that is not above its first digit. -/
theorem one_mul_tenTo_le (hm : m.units ≠ 0) (k : ℕ) (hstep : step + k ≤ m.decimalExponent) :
    one * tenTo (step.toNat + k) ≤ m.units * tenTo (-step).toNat := by
  have hone : 0 < one := twoTo_pos 1074
  rw [decimalExponent] at hstep
  generalize hN : m.units * tenTo 324 / one = N at hstep
  have hNpos : 0 < N := by
    rw [← hN]
    exact Nat.div_pos
      (Nat.le_trans one_le_tenTo (Nat.le_mul_of_pos_left _ (Nat.pos_of_ne_zero hm))) hone
  have hfirst : one * tenTo (Decimal.length N - 1) ≤ m.units * tenTo 324 := by
    refine Nat.le_trans (Nat.mul_le_mul_left one (Decimal.tenTo_length_le hNpos)) ?_
    rw [← hN]
    exact Nat.mul_div_le _ _
  have hlen := Decimal.length_pos N
  exact mul_tenTo_le hfirst (by omega)

/-- On a grid that is as fine as the first digit the magnitude does not round down to zero. -/
theorem scaled_pos (hm : m.units ≠ 0) (hstep : step ≤ m.decimalExponent) :
    0 < m.units * tenTo (-step).toNat / (one * tenTo step.toNat) :=
  Nat.div_pos (one_mul_tenTo_le hm 0 (by simpa using hstep))
    (Nat.mul_pos (twoTo_pos 1074) (tenTo_pos _))

/-- A neighbour of the magnitude is the point below it or the one above, and reads back. -/
theorem of_neighbour? (h : m.neighbour? tie step = some c) :
    (c = m.units * tenTo (-step).toNat / (one * tenTo step.toNat) ∨
      c = m.units * tenTo (-step).toNat / (one * tenTo step.toNat) + 1) ∧ m.readsBack c step := by
  unfold neighbour? at h
  dsimp only at h
  generalize m.units * tenTo (-step).toNat / (one * tenTo step.toNat) = k at h ⊢
  generalize 2 * (m.units * tenTo (-step).toNat % (one * tenTo step.toNat)) = r at h
  generalize one * tenTo step.toNat = whole at h
  cases hlow : m.readsBack k step <;> cases hhigh : m.readsBack (k + 1) step <;>
    simp only [hlow, hhigh] at h
  · cases h
  · obtain rfl := Option.some.inj h
    exact ⟨.inr rfl, hhigh⟩
  · obtain rfl := Option.some.inj h
    exact ⟨.inl rfl, hlow⟩
  · -- Both read back, and whichever is taken is one of the two.
    have hc : c = k ∨ c = k + 1 := by
      cases tie <;> split_ifs at h <;> have heq := Option.some.inj h <;> omega
    refine ⟨hc, ?_⟩
    rcases hc with rfl | rfl
    · exact hlow
    · exact hhigh

theorem neighbour?_pos (hm : m.units ≠ 0) (hstep : step ≤ m.decimalExponent)
    (h : m.neighbour? tie step = some c) : 0 < c := by
  have hpos := scaled_pos hm hstep
  have hc := (of_neighbour? h).1
  omega

theorem proper_shortestFrom (hm : m.units ≠ 0) (tries : ℕ) (hstep : step ≤ m.decimalExponent) :
    Decimal.Proper (m.shortestFrom tie tries step).digits := by
  induction tries generalizing step with
  | zero => exact Decimal.proper_ofScaled (scaled_pos hm hstep) step
  | succ tries ih =>
    rw [shortestFrom]
    cases hc : m.neighbour? tie step with
    | some c => exact Decimal.proper_ofScaled (neighbour?_pos hm hstep hc) step
    | none => exact ih (by omega)

end Magnitude

/-! ### Text -/

namespace NumberLayout

open Decimal

theorem toList_digitText {digits : List ℕ} (h : ∀ d ∈ digits, d < 10) :
    (digitText digits).toList = digits.map Nat.digitChar := by
  rw [digitText, String.toList_join, List.flatMap_map, List.map_eq_flatMap]
  refine List.flatMap_congr fun d hd => ?_
  rw [Nat.toString_eq_repr, Nat.toList_repr, Nat.toDigits_of_lt_base (h d hd)]

theorem isDigit_of_mem_digitText {digits : List ℕ} (h : ∀ d ∈ digits, d < 10) {x : Char}
    (hx : x ∈ (digitText digits).toList) : x.isDigit := by
  rw [toList_digitText h] at hx
  obtain ⟨d, hd, rfl⟩ := List.mem_map.mp hx
  simpa [Nat.isDigit_digitChar] using h d hd

theorem head?_digitText {digits : List ℕ} (h : Proper digits) :
    ∃ x, (digitText digits).toList.head? = some x ∧ x ≠ '0' := by
  obtain ⟨d, ds, rfl, hd⟩ := h.first
  have hlt := h.lt d (List.mem_cons_self ..)
  refine ⟨d.digitChar, by simp [toList_digitText h.lt], ?_⟩
  have hall : ∀ d < 10, d ≠ 0 → d.digitChar ≠ '0' := by decide
  exact hall d hlt hd

theorem toList_zeros (n : ℕ) : (zeros n).toList = List.replicate n '0' := String.toList_ofList

theorem digitValue_digitText {digits : List ℕ} (h : ∀ d ∈ digits, d < 10) :
    (digitText digits).toList.map digitValue = digits := by
  have hall : ∀ d < 10, digitValue d.digitChar = d := by decide
  rw [toList_digitText h, List.map_map]
  exact (List.map_congr_left fun d hd => hall d (h d hd)).trans (List.map_id digits)

theorem length_digitText {digits : List ℕ} (h : ∀ d ∈ digits, d < 10) :
    (digitText digits).toList.length = digits.length := by
  rw [toList_digitText h, List.length_map]

theorem digitText_ne_nil {digits : List ℕ} (h : ∀ d ∈ digits, d < 10) (hne : digits ≠ []) :
    (digitText digits).toList ≠ [] := by
  rwa [toList_digitText h, Ne, List.map_eq_nil_iff]

theorem isDigit_of_mem_zeros {k : ℕ} {x : Char} (hx : x ∈ List.replicate k '0') : x.isDigit := by
  rw [List.eq_of_mem_replicate hx]
  rfl

/-- Below one the whole part is zero, and zeros stand before the digits. -/
theorem denotes_below_one {digits : List ℕ} (h : Proper digits) (k : ℕ) :
    Denotes ['0'] ('.' :: (List.replicate k '0' ++ (digitText digits).toList)) (value digits)
      (k + digits.length) where
  ne_nil := by simp
  digits := by simp
  no_leading_zero := by simp
  fraction := by
    refine .inr ⟨_, rfl, ?_, fun x hx => ?_⟩
    · exact List.append_ne_nil_of_right_ne_nil _ (digitText_ne_nil h.lt h.ne_nil)
    · exact (List.mem_append.mp hx).elim isDigit_of_mem_zeros (isDigit_of_mem_digitText h.lt)
  value_eq := by
    have hzero : digitValue '0' = 0 := rfl
    rw [List.drop_one, List.tail_cons, List.map_append, List.map_append, List.map_replicate, hzero,
      digitValue_digitText h.lt, value_append, value_append, value_replicate_zero]
    simp [value, hzero]
  places_eq := by
    rw [List.drop_one, List.tail_cons, List.length_append, List.length_replicate,
      length_digitText h.lt]

/-- Zeros behind the digits fill the whole part. -/
theorem denotes_whole {digits : List ℕ} (h : Proper digits) (k : ℕ) :
    Denotes ((digitText digits).toList ++ List.replicate k '0') [] (value digits * tenTo k) 0 := by
  refine ⟨isDecimal_of_head? ?_ (fun x hx => ?_) (.inl rfl), ?_, rfl⟩
  · obtain ⟨x, hx, hne⟩ := head?_digitText h
    exact ⟨x, by rw [List.head?_append, hx]; rfl, hne⟩
  · exact (List.mem_append.mp hx).elim (isDigit_of_mem_digitText h.lt) isDigit_of_mem_zeros
  · have hzero : digitValue '0' = 0 := rfl
    rw [List.drop_nil, List.append_nil, List.map_append, List.map_replicate, hzero,
      digitValue_digitText h.lt, value_append, value_replicate_zero, List.length_replicate,
      Nat.add_zero]

/-- The point stands among the digits, behind the first of them. -/
theorem denotes_among {digits : List ℕ} (h : Proper digits) {k : ℕ} (hk : k + 1 < digits.length) :
    Denotes (digitText (digits.take (k + 1))).toList
      ('.' :: (digitText (digits.drop (k + 1))).toList) (value digits)
      (digits.length - (k + 1)) := by
  have htake : ∀ d ∈ digits.take (k + 1), d < 10 := fun d hd => h.lt d (List.mem_of_mem_take hd)
  have hdrop : ∀ d ∈ digits.drop (k + 1), d < 10 := fun d hd => h.lt d (List.mem_of_mem_drop hd)
  have hproper : Proper (digits.take (k + 1)) := by
    obtain ⟨d, ds, hd, hd0⟩ := h.first
    exact ⟨htake, d, ds.take k, by rw [hd, List.take_succ_cons], hd0⟩
  have hne : digits.drop (k + 1) ≠ [] := by
    rw [Ne, List.drop_eq_nil_iff]
    omega
  refine ⟨isDecimal_of_head? (head?_digitText hproper)
    (fun x hx => isDigit_of_mem_digitText htake hx)
    (.inr ⟨_, rfl, digitText_ne_nil hdrop hne, fun x hx => isDigit_of_mem_digitText hdrop hx⟩),
    ?_, ?_⟩
  · rw [List.drop_one, List.tail_cons, List.map_append, digitValue_digitText htake,
      digitValue_digitText hdrop, List.take_append_drop]
  · rw [List.drop_one, List.tail_cons, length_digitText hdrop, List.length_drop]

/-- Positional notation without a forced point denotes the digits at their scale. -/
theorem denotes_positionalText {d : Decimal} (h : Proper d.digits) :
    ∃ whole fraction, (positionalText false d).toList = whole ++ fraction ∧
      Denotes whole fraction (value d.digits * tenTo d.scale.toNat) (-d.scale).toNat := by
  have hpos : 0 < d.digits.length := List.length_pos_of_ne_nil h.ne_nil
  have hbelow : d.scale ≤ 0 → value d.digits * tenTo d.scale.toNat = value d.digits := by
    intro hscale
    rw [Int.toNat_of_nonpos hscale]
    exact Nat.mul_one _
  unfold positionalText
  by_cases hneg : d.exponent < 0
  · rw [if_pos hneg, hbelow (by rw [scale]; omega)]
    have hplaces : (-d.scale).toNat = (-d.exponent - 1).toNat + d.digits.length := by
      rw [scale]
      omega
    rw [hplaces]
    exact ⟨_, _, by simp [toList_zeros], denotes_below_one h _⟩
  rw [if_neg hneg]
  by_cases hlen : d.digits.length ≤ d.exponent.toNat + 1
  · rw [if_pos hlen]
    have hplaces : (-d.scale).toNat = 0 := by
      rw [scale]
      omega
    have hzeros : d.scale.toNat = d.exponent.toNat + 1 - d.digits.length := by
      rw [scale]
      omega
    rw [hplaces, hzeros]
    exact ⟨_, _, by simp [toList_zeros], denotes_whole h _⟩
  · rw [if_neg hlen, hbelow (by rw [scale]; omega)]
    have hplaces : (-d.scale).toNat = d.digits.length - (d.exponent.toNat + 1) := by
      rw [scale]
      omega
    rw [hplaces]
    exact ⟨_, _, by simp, denotes_among h (Nat.not_le.mp hlen)⟩

theorem exists_decimal_magnitudeText (m : Magnitude) :
    ∃ whole fraction, (source.magnitudeText m).toList = whole ++ fraction ∧
      IsDecimal whole fraction := by
  unfold magnitudeText
  split_ifs with hm hpoint
  · cases hpoint
  · exact ⟨['0'], [], by simp, by simp, by simp, by simp, .inl rfl⟩
  · obtain ⟨whole, fraction, htext, hdenotes⟩ :=
      denotes_positionalText (m.proper_shortestFrom hm 17 (Int.le_refl _))
    exact ⟨whole, fraction, htext, hdenotes.toIsDecimal⟩

end NumberLayout

theorem head?_toDigits (hn : 0 < n) : ∃ x, (Nat.toDigits 10 n).head? = some x ∧ x ≠ '0' := by
  induction n using Nat.strongRecOn with
  | ind n ih =>
    rw [Nat.toDigits_eq_if (by decide)]
    split
    · next hlt =>
      have hall : ∀ d < 10, 0 < d → d.digitChar ≠ '0' := by decide
      exact ⟨n.digitChar, rfl, hall n hlt hn⟩
    · obtain ⟨x, hx, hne⟩ := ih (n / 10) (by omega) (by omega)
      exact ⟨x, by rw [List.head?_append, hx]; rfl, hne⟩

/-- The digits of a natural have no leading zero. -/
theorem isDecimal_toString (n : ℕ) : IsDecimal (toString n).toList [] := by
  rw [Nat.toString_eq_repr, Nat.toList_repr]
  have hdigits : ∀ c ∈ Nat.toDigits 10 n, c.isDigit := fun c hc =>
    Nat.isDigit_of_mem_toDigits (by decide) le_rfl hc
  rcases Nat.eq_zero_or_pos n with rfl | hn
  · exact ⟨by decide, hdigits, fun _ => rfl, .inl rfl⟩
  · exact isDecimal_of_head? (head?_toDigits hn) hdigits (.inl rfl)

/-- A finite number is written as a decimal with an optional minus in front. -/
theorem Number.exists_decimal_sourceText (negative : Bool) (m : Magnitude) :
    ∃ (signed : Bool) (whole fraction : List Char),
      (Number.finite negative m).sourceText.toList =
        (if signed then ['-'] else []) ++ (whole ++ fraction) ∧ IsDecimal whole fraction := by
  have hsign : ∀ b : Bool, (if b then "-" else "").toList = if b then ['-'] else [] := by decide
  simp only [sourceText]
  by_cases hwhole : (m.isWhole && m.floor < exactLimit) = true
  · rw [if_pos hwhole]
    refine ⟨negative && m.floor ≠ 0, (toString m.floor).toList, [], ?_, isDecimal_toString _⟩
    rw [String.toList_append, hsign, List.append_nil]
  · rw [if_neg hwhole]
    obtain ⟨whole, fraction, htext, hdecimal⟩ := NumberLayout.exists_decimal_magnitudeText m
    refine ⟨negative, whole, fraction, ?_, hdecimal⟩
    rw [String.toList_append, hsign, htext]

/-- What a number is written with. -/
theorem Number.mem_sourceText {n : Number} {x : Char} (hx : x ∈ n.sourceText.toList) :
    x.isDigit ∨ x ∈ ['-', '.', 'N', 'a', 'i', 'n', 'f'] := by
  cases n with
  | nan =>
    have hall : Number.nan.sourceText.toList ⊆ ['-', '.', 'N', 'a', 'i', 'n', 'f'] := by decide
    exact .inr (hall hx)
  | infinite negative =>
    have hall : ∀ negative, (Number.infinite negative).sourceText.toList ⊆
        ['-', '.', 'N', 'a', 'i', 'n', 'f'] := by decide
    exact .inr (hall negative hx)
  | finite negative m =>
    obtain ⟨signed, whole, fraction, htext, hdecimal⟩ :=
      Number.exists_decimal_sourceText negative m
    rw [htext, List.mem_append, List.mem_append] at hx
    rcases hx with hx | hx | hx
    · cases signed with
      | false => cases hx
      | true => simp_all
    · exact .inl (hdecimal.digits x hx)
    · rcases hdecimal.fraction with rfl | ⟨ds, rfl, -, hds⟩
      · cases hx
      · rcases List.mem_cons.mp hx with rfl | hx
        · simp
        · exact .inl (hds x hx)

theorem Number.sourceText_ne_nil (n : Number) : n.sourceText.toList ≠ [] := by
  cases n with
  | nan => decide
  | infinite negative => cases negative <;> decide
  | finite negative m =>
    obtain ⟨signed, whole, fraction, htext, hdecimal⟩ :=
      Number.exists_decimal_sourceText negative m
    rw [htext]
    simp [hdecimal.ne_nil]

end TemplateLang
