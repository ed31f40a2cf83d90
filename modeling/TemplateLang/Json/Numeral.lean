import TemplateLang.Json.Basic

/-! Reading the numbers of JSON text. The digits are gathered into a significand of 64
bits, rounded to a floating-point number, and scaled by one power of ten, so two
roundings decide the value. Digits that no longer fit the significand are dropped:
those of the whole part still count for its size. A number without point, exponent
or dropped digits is an integer. -/

namespace TemplateLang.Json

/-- A number as it is written. -/
structure Numeral where
  negative : Bool
  whole : List Nat
  fraction : List Nat
  exponent : Option Int

namespace Numeral

def significandBound : Nat := twoTo 64

/-- The significand of the whole part, and how many of its digits were dropped. -/
def gatherWhole (digits : List Nat) : Nat × Nat :=
  digits.foldl (fun (significand, dropped) d =>
    if dropped = 0 ∧ 10 * significand + d < significandBound then (10 * significand + d, 0)
    else (significand, dropped + 1)) (0, 0)

/-- Continues a significand into the fraction, up to the first digit that does not fit. -/
def gatherFraction (significand : Nat) (exponent : Int) : List Nat → Nat × Int
  | [] => (significand, exponent)
  | d :: rest =>
    if 10 * significand + d < significandBound then
      gatherFraction (10 * significand + d) (exponent - 1) rest
    else (significand, exponent)

/-- The largest power of ten that is a finite number. -/
def greatestPower : Nat := 308

def powerOfTen? (n : Nat) : Option Magnitude := Magnitude.ofNat? (tenTo n)

/-- `significand * 10 ^ exponent`, unless it is beyond the finite numbers. A quotient too small
for one division by a power of ten takes two, and beyond these is zero. -/
def scale? (significand : Nat) (exponent : Int) : Option Magnitude := do
  let m ← Magnitude.ofNat? significand
  let steps := exponent.natAbs
  if m.units = 0 then some .zero
  else if 0 ≤ exponent then
    if steps ≤ greatestPower then m.mul? (← powerOfTen? steps) else none
  else if steps ≤ greatestPower then m.div? (← powerOfTen? steps)
  else if steps ≤ 2 * greatestPower then
    (← m.div? (← powerOfTen? greatestPower)).div? (← powerOfTen? (steps - greatestPower))
  else some .zero

/-- Written exponents beyond this are not computed with. -/
def exponentLimit : Nat := twoTo 31 - 1

/-- The number that a numeral writes, unless it is beyond the finite numbers. -/
def read? (n : Numeral) : Option JsonNumber :=
  let (whole, dropped) := gatherWhole n.whole
  if n.fraction.isEmpty ∧ n.exponent = none ∧ dropped = 0 then
    if !n.negative then some (.integer whole)
    else if 0 < whole ∧ whole ≤ twoTo 63 then some (.integer (-whole))
    else (Magnitude.ofNat? whole).map fun m => .float (.finite true m)
  else
    let (significand, scaled) := gatherFraction whole dropped n.fraction
    let written := n.exponent.getD 0
    let magnitude? :=
      if written.natAbs ≤ exponentLimit then scale? significand (scaled + written)
      else if significand = 0 ∨ written < 0 then some .zero
      else none
    magnitude?.map fun m => .float (.finite n.negative m)

end Numeral

end TemplateLang.Json
