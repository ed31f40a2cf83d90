import TemplateLang.Number.Basic

/-! The shortest decimal that reads back. A finite magnitude is the nearest one to
every real of an interval around it, ends included exactly when its mantissa is
even. For one, two, up to seventeen digits the two neighbours of the magnitude on
that decimal grid are tested against the interval; the first grid with a hit
wins, and of two hits the nearer. A tie between them is left to the caller. -/

namespace TemplateLang

/-- Decimal digits, the first not zero, read as `d.ddd` times ten to `exponent`. -/
structure Decimal where
  digits : List Nat
  exponent : Int
deriving DecidableEq

/-- Which of two equally near neighbours is taken. -/
inductive Tie where
  | up
  | even
deriving DecidableEq

namespace Decimal

/-- How many decimal digits `n` is written with. -/
def length (n : Nat) : Nat := if n < 10 then 1 else length (n / 10) + 1

/-- Digits of `n`, most significant first, in front of `rest`. -/
def digitsOnto (n : Nat) (rest : List Nat) : List Nat :=
  if n < 10 then n :: rest else digitsOnto (n / 10) (n % 10 :: rest)

/-- The value of a digit list, most significant first. -/
def value (digits : List Nat) : Nat := digits.foldl (fun n d => 10 * n + d) 0

/-- The decimal `c * 10 ^ step` without trailing zeros. -/
def ofScaled (c : Nat) (step : Int) : Decimal where
  digits := ((digitsOnto c []).reverse.dropWhile (· = 0)).reverse
  exponent := step + length c - 1

end Decimal

namespace Magnitude

/-- The power of ten of the first digit of a magnitude other than zero. -/
def decimalExponent (m : Magnitude) : Int :=
  (Decimal.length (m.units * tenTo 324 / one) : Int) - 325

/-- Four times the lower end of the interval that rounds to `m`, in units. Just above a
power of two the magnitudes below lie twice as dense. -/
def lowerEnd (m : Magnitude) : Nat :=
  let gap := twoTo (lastPlace m.units)
  if 0 < lastPlace m.units ∧ m.units = twoTo m.units.log2 then 4 * m.units - gap
  else 4 * m.units - 2 * gap

/-- Four times the upper end of the interval that rounds to `m`, in units. -/
def upperEnd (m : Magnitude) : Nat := 4 * m.units + 2 * twoTo (lastPlace m.units)

/-- Whether `c * 10 ^ step` reads back as `m`. -/
def readsBack (m : Magnitude) (c : Nat) (step : Int) : Bool :=
  let point := 4 * c * one * tenTo step.toNat
  let low := m.lowerEnd * tenTo (-step).toNat
  let high := m.upperEnd * tenTo (-step).toNat
  if m.isEven then low ≤ point && point ≤ high else low < point && point < high

/-- The neighbour of `m` on the grid of step `10 ^ step` that reads back, if any. -/
def neighbour? (tie : Tie) (m : Magnitude) (step : Int) : Option Nat :=
  let p := m.units * tenTo (-step).toNat
  let q := one * tenTo step.toNat
  let c := p / q
  match m.readsBack c step, m.readsBack (c + 1) step with
  | true, false => some c
  | false, true => some (c + 1)
  | false, false => none
  | true, true =>
    let r := 2 * (p % q)
    if r < q then some c
    else if q < r then some (c + 1)
    else match tie with
      | .up => some (c + 1)
      | .even => some (if c % 2 = 0 then c else c + 1)

/-- Tries grids of more and more digits, `tries` of them, ever finer from `step` on. -/
def shortestFrom (tie : Tie) (m : Magnitude) : Nat → Int → Decimal
  | 0, step => .ofScaled (m.units * tenTo (-step).toNat / (one * tenTo step.toNat)) step
  | tries + 1, step =>
    match m.neighbour? tie step with
    | some c => .ofScaled c step
    | none => shortestFrom tie m tries (step - 1)

/-- The shortest decimal that reads back as `m`, which is not zero. -/
def shortest (tie : Tie) (m : Magnitude) : Decimal := m.shortestFrom tie 17 m.decimalExponent

end Magnitude

end TemplateLang
