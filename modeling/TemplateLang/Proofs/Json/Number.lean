import Mathlib.Data.Int.Basic
import TemplateLang.Json.Raw
import TemplateLang.Proofs.Json.Fields
import TemplateLang.Proofs.Number.Rounding
import TemplateLang.Proofs.Value.Numbers

/-! The numbers of JSON as floating-point numbers. An integer of 64 bits is far below the largest
finite number, so rounding it finds the finite number nearest to it. All numbers that are read
from text are such integers or finite themselves. -/

namespace TemplateLang

/-! ### Values of numbers -/

namespace Number

/-- A finite number in units of `2 ^ -1074`, with its sign. -/
def units : Number → ℤ
  | .finite negative m => if negative then -m.units else m.units
  | _ => 0

def isNegative : Number → Bool
  | .infinite negative => negative
  | .finite negative _ => negative
  | .nan => false

/-- Whether the mantissa is even. -/
def isEven : Number → Bool
  | .finite _ m => m.isEven
  | _ => false

theorem exists_finite {x : Number} (h : x.isFinite) : ∃ s m, x = finite s m := by
  cases x with
  | finite s m => exact ⟨s, m, rfl⟩
  | _ => cases h

/-- An integer is rounded by its amount. -/
theorem ofInt_eq (k : ℤ) :
    ofInt k = ofMagnitude? (k < 0) (Magnitude.round? (k.natAbs * Magnitude.one) 1) := by
  cases k with
  | ofNat k =>
    have hk : ¬ (k : ℤ) < 0 := by omega
    simp [ofInt, ofRatio, hk]
  | negSucc k => simp [ofInt, ofRatio]

end Number

namespace JsonNumber

/-- Integers have 64 bits, below zero with a sign, and all other numbers are finite. -/
def isStorable : JsonNumber → Bool
  | .integer n => -twoTo 63 ≤ n && n < twoTo 64
  | .float x => x.isFinite

/-- The value in units of `2 ^ -1074`. -/
def units : JsonNumber → ℤ
  | .integer n => n * Magnitude.one
  | .float x => x.units

def isNegative : JsonNumber → Bool
  | .integer n => n < 0
  | .float x => x.isNegative

/-- `x` is the floating-point number nearest to `n`. No finite number is nearer, one that is as near
leaves it an even mantissa, and the sign is that of `n`, which zero has also. -/
structure IsNearest (n : JsonNumber) (x : Number) : Prop where
  finite : x.isFinite
  sign : x.isNegative = n.isNegative
  le : ∀ y : Number, y.isFinite → (x.units - n.units).natAbs ≤ (y.units - n.units).natAbs
  even : ∀ y : Number, y.isFinite → (x.units - n.units).natAbs = (y.units - n.units).natAbs →
    y.units ≠ x.units → x.isEven

variable {n : JsonNumber} {x : Number} {negative : Bool} {m : Magnitude}

/-- A value is its amount with its sign. -/
theorem units_eq (n : JsonNumber) :
    n.units = if n.isNegative then -(n.units.natAbs : ℤ) else n.units.natAbs := by
  cases n with
  | integer k =>
    have hone : (0 : ℤ) < Magnitude.one := by exact_mod_cast twoTo_pos 1074
    simp only [units, isNegative, decide_eq_true_eq]
    split_ifs with hk
    · have hneg := Int.mul_neg_of_neg_of_pos hk hone
      omega
    · have hnonneg := Int.mul_nonneg (Int.not_lt.mp hk) hone.le
      omega
  | float x =>
    rcases x with _ | s | ⟨s, m⟩
    · rfl
    · cases s <;> rfl
    · cases s <;> simp [units, isNegative, Number.units, Number.isNegative]

/-- On the side of the value the distance is that of the magnitudes, and on the other side no number
is nearer than zero. -/
theorem natAbs_sub_units (n : JsonNumber) (s : Bool) (m : Magnitude) :
    ((Number.finite s m).units - n.units).natAbs =
      if s = n.isNegative then (m.units * 1).dist n.units.natAbs
      else m.units + n.units.natAbs := by
  have hunits := n.units_eq
  generalize n.units.natAbs = v at *
  rw [hunits]
  cases s <;> cases n.isNegative <;> simp [Number.units, Nat.dist] <;> omega

theorem IsNearest.closest (h : n.IsNearest (.finite negative m)) :
    m.Closest n.units.natAbs 1 := by
  obtain ⟨-, hsign, hle, heven⟩ := h
  obtain rfl : negative = n.isNegative := hsign
  refine ⟨fun m' => ?_, fun m' heq hne => ?_⟩
  · have hle' := hle (.finite n.isNegative m') rfl
    rwa [natAbs_sub_units, natAbs_sub_units, if_pos rfl, if_pos rfl] at hle'
  · refine heven (.finite n.isNegative m') rfl ?_ fun hunits => hne (Magnitude.ext_units ?_)
    · rwa [natAbs_sub_units, natAbs_sub_units, if_pos rfl, if_pos rfl]
    · simp only [Number.units] at hunits
      split_ifs at hunits <;> omega

theorem isNearest_of_closest (h : m.Closest n.units.natAbs 1) :
    n.IsNearest (.finite n.isNegative m) := by
  have hzero := h.le .zero
  have hzeroUnits : Magnitude.zero.units = 0 := rfl
  refine ⟨rfl, rfl, fun y hy => ?_, fun y hy heq hne => ?_⟩
  · obtain ⟨s, m', rfl⟩ := Number.exists_finite hy
    have hle := h.le m'
    rw [natAbs_sub_units, natAbs_sub_units, if_pos rfl]
    simp only [Nat.dist] at *
    split_ifs <;> omega
  · obtain ⟨s, m', rfl⟩ := Number.exists_finite hy
    rw [natAbs_sub_units, natAbs_sub_units, if_pos rfl] at heq
    by_cases hs : s = n.isNegative
    · rw [if_pos hs] at heq
      exact h.even m' heq fun hmm => hne (by rw [hs, hmm])
    · -- zero of either sign is as near
      rw [if_neg hs] at heq
      have hdist : (m.units * 1).dist n.units.natAbs =
          (Magnitude.zero.units * 1).dist n.units.natAbs := by
        simp only [Nat.dist] at *
        omega
      refine h.even .zero hdist fun hzm => hne ?_
      have hm : m.units = 0 := hzm ▸ hzeroUnits
      have hm' : m'.units = 0 := by
        simp only [Nat.dist] at *
        omega
      simp [Number.units, hm, hm']

theorem natAbs_units_finite (s : Bool) (m : Magnitude) :
    (units (.float (.finite s m))).natAbs = m.units := by
  cases s <;> simp [units, Number.units]

theorem natAbs_units_integer (k : ℤ) :
    (units (.integer k)).natAbs = k.natAbs * Magnitude.one := by
  rw [units, Int.natAbs_mul, Int.natAbs_natCast]

/-- Integers of 64 bits are below the largest magnitudes. -/
theorem round?_integer_isSome {k : ℤ} (h : isStorable (.integer k)) :
    (Magnitude.round? (k.natAbs * Magnitude.one) 1).isSome := by
  have habs : k.natAbs ≤ twoTo 64 := by
    have h63 : twoTo 63 = 9223372036854775808 := rfl
    have h64 : twoTo 64 = 18446744073709551616 := rfl
    simp only [isStorable, Bool.and_eq_true, decide_eq_true_eq] at h
    omega
  have hpower : twoTo 64 * Magnitude.one < twoTo 2096 := by decide +kernel
  apply Magnitude.round?_isSome
  rw [Nat.div_one]
  exact (Nat.mul_le_mul_right _ habs).trans_lt hpower

/-- The floating-point number of a storable number is finite, and closest in its magnitude. -/
theorem exists_closest (h : n.isStorable) :
    ∃ m, n.toNumber = .finite n.isNegative m ∧ m.Closest n.units.natAbs 1 := by
  cases n with
  | float x =>
    obtain ⟨s, m, rfl⟩ := Number.exists_finite h
    rw [natAbs_units_finite]
    exact ⟨m, rfl, m.closest_self⟩
  | integer k =>
    obtain ⟨m, hm⟩ := Option.isSome_iff_exists.mp (round?_integer_isSome h)
    rw [natAbs_units_integer]
    refine ⟨m, ?_, Magnitude.closest_of_round? Nat.one_pos hm⟩
    rw [toNumber, Number.ofInt_eq, hm]
    rfl

theorem isFinite_toNumber (h : n.isStorable) : n.toNumber.isFinite := by
  obtain ⟨m, hm, -⟩ := exists_closest h
  rw [hm]
  rfl

/-- The number nearest to a storable number is what it is converted to. -/
theorem isNearest_iff (h : n.isStorable) : n.IsNearest x ↔ x = n.toNumber := by
  obtain ⟨m, hm, hclosest⟩ := exists_closest h
  rw [hm]
  constructor
  · intro hx
    obtain ⟨s, m', rfl⟩ := Number.exists_finite hx.finite
    obtain rfl : s = n.isNegative := hx.sign
    rw [hx.closest.unique Nat.one_pos hclosest]
  · rintro rfl
    exact isNearest_of_closest hclosest

end JsonNumber

/-! ### Reading -/

namespace Json

namespace Numeral

/-- No digit that is gathered takes the significand out of its bits. -/
theorem gatherWhole_lt (digits : List ℕ) : (gatherWhole digits).1 < significandBound := by
  refine List.foldlRecOn digits _ (motive := fun taken : ℕ × ℕ => taken.1 < significandBound)
    (twoTo_pos 64) ?_
  rintro ⟨significand, dropped⟩ h d -
  dsimp only
  split_ifs with hfits
  · exact hfits.2
  · exact h

theorem isStorable_of_read? {n : Numeral} {k : JsonNumber} (h : n.read? = some k) :
    k.isStorable := by
  have hwhole := gatherWhole_lt n.whole
  have hfloat : ∀ (s : Bool) (m? : Option Magnitude),
      m?.map (fun m => JsonNumber.float (.finite s m)) = some k → k.isStorable := by
    intro s m? hm
    obtain ⟨m, -, rfl⟩ := Option.map_eq_some_iff.mp hm
    rfl
  have hbits : significandBound = 18446744073709551616 := rfl
  have h63 : twoTo 63 = 9223372036854775808 := rfl
  have h64 : twoTo 64 = 18446744073709551616 := rfl
  rw [read?] at h
  dsimp only at h
  split_ifs at h with hinteger hpositive hnegative
  · obtain rfl := Option.some.inj h
    simp only [JsonNumber.isStorable, Bool.and_eq_true, decide_eq_true_eq]
    omega
  · obtain rfl := Option.some.inj h
    simp only [JsonNumber.isStorable, Bool.and_eq_true, decide_eq_true_eq]
    omega
  all_goals exact hfloat _ _ h

end Numeral

/-- Collecting fields adds no number. -/
theorem mem_fieldNumbers_sortFields {fields : List (String × Json)} {n : JsonNumber}
    (h : n ∈ fieldNumbers (sortFields fields)) : n ∈ fieldNumbers fields := by
  rw [mem_fieldNumbers] at h ⊢
  obtain ⟨f, hf, hn⟩ := h
  exact ⟨f, mem_sortFields f hf, hn⟩

namespace Raw

mutual

theorem isStorable_read? : ∀ (r : Raw) {depth : ℕ} {j : Json}, r.read? depth = some j →
    ∀ n ∈ j.numbers, n.isStorable
  | .null, _, j, h | .bool _, _, j, h => by
    obtain rfl := Option.some.inj h
    simp [numbers]
  | .number k, _, j, h => by
    rw [read?] at h
    obtain ⟨n, hn, rfl⟩ := Option.map_eq_some_iff.mp h
    simpa [numbers] using Numeral.isStorable_of_read? hn
  | .string s, _, j, h => by
    rw [read?] at h
    obtain ⟨s, -, rfl⟩ := Option.map_eq_some_iff.mp h
    simp [numbers]
  | .array items, depth, j, h => by
    rw [read?] at h
    split_ifs at h
    obtain ⟨js, hjs, rfl⟩ := Option.map_eq_some_iff.mp h
    exact isStorable_readItems? items hjs
  | .object fields, depth, j, h => by
    rw [read?] at h
    split_ifs at h
    obtain ⟨js, hjs, rfl⟩ := Option.map_eq_some_iff.mp h
    exact fun n hn => isStorable_readFields? fields hjs n (mem_fieldNumbers_sortFields hn)

theorem isStorable_readItems? : ∀ (items : List Raw) {depth : ℕ} {js : List Json},
    readItems? depth items = some js → ∀ n ∈ itemNumbers js, n.isStorable
  | [], _, js, h => by
    obtain rfl := Option.some.inj h
    simp [itemNumbers]
  | item :: rest, depth, js, h => by
    simp only [readItems?, Option.bind_eq_bind, Option.bind_eq_some_iff, Option.pure_def,
      Option.some.injEq] at h
    obtain ⟨j, hj, js, hjs, rfl⟩ := h
    rw [itemNumbers, List.forall_mem_append]
    exact ⟨isStorable_read? item hj, isStorable_readItems? rest hjs⟩

theorem isStorable_readFields? : ∀ (fields : List (Option String × Raw)) {depth : ℕ}
    {js : List (String × Json)}, readFields? depth fields = some js →
    ∀ n ∈ fieldNumbers js, n.isStorable
  | [], _, js, h => by
    obtain rfl := Option.some.inj h
    simp [fieldNumbers]
  | (name, value) :: rest, depth, js, h => by
    simp only [readFields?, Option.bind_eq_bind, Option.bind_eq_some_iff, Option.pure_def,
      Option.some.injEq] at h
    obtain ⟨s, -, j, hj, js, hjs, rfl⟩ := h
    rw [fieldNumbers, List.forall_mem_append]
    exact ⟨isStorable_read? value hj, isStorable_readFields? rest hjs⟩

end

end Raw

/-- All numbers of what is read from a text are storable. -/
theorem isStorable_of_ofText? {text : String} {j : Json} (h : ofText? text = some j) :
    ∀ n ∈ j.numbers, n.isStorable := by
  obtain ⟨r, -, hr⟩ := Option.bind_eq_some_iff.mp h
  exact Raw.isStorable_read? r hr

end Json

end TemplateLang
