import TemplateLang.Number.Power

/-! Floating-point numbers of 64 bits, held exactly. A finite magnitude is a whole
number of units of `2 ^ -1074` with at most 53 significant bits, so comparing,
rounding and printing are arithmetic on naturals. Rounding goes to the nearest
magnitude and, between two that are equally near, to the one whose mantissa is
even. -/

namespace TemplateLang

/-! ### Magnitudes -/

/-- The whole number nearest to `p / q`, the even one when two are equally near. -/
def roundQuotient (p q : Nat) : Nat :=
  let n := p / q
  let r := p % q
  if 2 * r < q then n
  else if q < 2 * r then n + 1
  else if n % 2 = 0 then n
  else n + 1

theorem roundQuotient_le (p q : Nat) : roundQuotient p q ≤ p / q + 1 := by
  simp only [roundQuotient]
  split
  · omega
  · split
    · omega
    · split <;> omega

/-- Magnitudes near `u` units are two to this power apart. -/
def lastPlace (u : Nat) : Nat := u.log2 - 52

/-- A finite magnitude in units has at most this many binary digits. -/
def magnitudeBits : Nat := 2098

/-- Every finite magnitude is below this many units. -/
def magnitudeBound : Nat := twoTo magnitudeBits

/-- A finite magnitude, in units of `2 ^ -1074`. -/
structure Magnitude where
  units : Nat
  units_lt : units < magnitudeBound
  lastPlace_dvd : twoTo (lastPlace units) ∣ units
deriving DecidableEq

namespace Magnitude

/-- The unit: one is this many units. -/
def one : Nat := twoTo 1074

theorem magnitudeBound_pos : 0 < magnitudeBound := twoTo_pos magnitudeBits

def zero : Magnitude := ⟨0, magnitudeBound_pos, Nat.dvd_zero _⟩

private theorem lastPlace_dvd_of_le {n k : Nat} (h : n ≤ twoTo 53) :
    twoTo (lastPlace (n * twoTo k)) ∣ n * twoTo k := by
  rcases Nat.eq_zero_or_pos n with rfl | hn
  · simp
  rcases Nat.lt_or_eq_of_le h with hlt | rfl
  · have hpos : n * twoTo k ≠ 0 := Nat.mul_ne_zero (by omega) (Nat.ne_of_gt (twoTo_pos k))
    have hlog : (n * twoTo k).log2 < 53 + k := by
      rw [log2_lt_iff hpos, twoTo_add]
      exact Nat.mul_lt_mul_of_pos_right hlt (twoTo_pos k)
    exact Nat.dvd_trans (twoTo_dvd_twoTo (by simp only [lastPlace]; omega)) (Nat.dvd_mul_left _ _)
  · rw [← twoTo_add]
    refine twoTo_dvd_twoTo ?_
    rw [lastPlace, log2_twoTo]
    omega

theorem roundQuotient_scaled_le (p q : Nat) :
    roundQuotient p (q * twoTo (lastPlace (p / q))) ≤ twoTo 53 := by
  refine Nat.le_trans (roundQuotient_le _ _) ?_
  rw [← Nat.div_div_eq_div_mul]
  have hlt : p / q / twoTo (lastPlace (p / q)) < twoTo 53 := by
    rcases Nat.eq_zero_or_pos (p / q) with h0 | hpos
    · rw [h0, Nat.zero_div]
      exact twoTo_pos 53
    · refine Nat.div_lt_of_lt_mul ?_
      rw [← twoTo_add]
      refine (log2_lt_iff (by omega) _).mp ?_
      simp only [lastPlace]
      omega
  omega

/-- The magnitude nearest to `p / q` units, unless that is beyond the largest. -/
def round? (p q : Nat) : Option Magnitude :=
  let place := lastPlace (p / q)
  let mantissa := roundQuotient p (q * twoTo place)
  if h : mantissa * twoTo place < magnitudeBound then
    some ⟨mantissa * twoTo place, h, lastPlace_dvd_of_le (roundQuotient_scaled_le p q)⟩
  else none

def ofNat? (n : Nat) : Option Magnitude := round? (n * one) 1

/-- The exact product, rounded. -/
def mul? (a b : Magnitude) : Option Magnitude := round? (a.units * b.units) one

/-- The exact quotient, rounded. -/
def div? (a b : Magnitude) : Option Magnitude := round? (a.units * one) b.units

def isWhole (m : Magnitude) : Bool := m.units % one = 0

/-- The whole part. -/
def floor (m : Magnitude) : Nat := m.units / one

/-- Whether the mantissa, the count of last places, is even. -/
def isEven (m : Magnitude) : Bool := m.units / twoTo (lastPlace m.units) % 2 = 0

end Magnitude

/-! ### Numbers -/

inductive Number where
  | nan
  | infinite (negative : Bool)
  | finite (negative : Bool) (magnitude : Magnitude)
deriving DecidableEq

namespace Number

/-- A signed magnitude; one beyond the largest is infinite. -/
def ofMagnitude? (negative : Bool) : Option Magnitude → Number
  | some m => .finite negative m
  | none => .infinite negative

/-- The number nearest to `p / q`, with the given sign. -/
def ofRatio (negative : Bool) (p q : Nat) : Number :=
  ofMagnitude? negative (Magnitude.round? (p * Magnitude.one) q)

def ofNat (n : Nat) : Number := ofRatio false n 1

def ofInt : Int → Number
  | .ofNat n => ofRatio false n 1
  | .negSucc n => ofRatio true (n + 1) 1

def zero : Number := .finite false .zero

def isNaN : Number → Bool
  | .nan => true
  | _ => false

def isFinite : Number → Bool
  | .finite _ _ => true
  | _ => false

/-- Zero of either sign. -/
def isZero : Number → Bool
  | .finite _ m => m.units = 0
  | _ => false

/-- Numeric equality: the two zeros are equal and nothing equals `nan`. -/
def equals : Number → Number → Bool
  | .infinite s, .infinite t => s = t
  | .finite s a, .finite t b => a.units = b.units && (s = t || a.units = 0)
  | _, _ => false

end Number

end TemplateLang
