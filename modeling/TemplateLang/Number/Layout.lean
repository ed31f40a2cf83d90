import TemplateLang.Number.Decimal

/-! How numbers are written. A layout fixes which decimal exponents are written in
positional notation, whether a whole number keeps `.0`, and which way a tie among
shortest decimals goes. Template source and JSON text each have one. -/

namespace TemplateLang

structure NumberLayout where
  tie : Tie
  /-- Whether a number with this decimal exponent is written without one. -/
  positional : Int → Bool
  /-- Whether a whole number is written with `.0`. -/
  keepsPoint : Bool

namespace NumberLayout

/-- Template source is always positional, and whole numbers have no point. -/
def source : NumberLayout := ⟨.up, fun _ => true, false⟩

/-- JSON text has an exponent below `10 ^ -5` and from `10 ^ 16` on, and a point otherwise. -/
def json : NumberLayout := ⟨.even, fun e => -5 ≤ e && e ≤ 15, true⟩

def digitText (digits : List Nat) : String := String.join (digits.map toString)

def zeros (n : Nat) : String := String.ofList (List.replicate n '0')

/-- `digits` with the point where `exponent` puts it. -/
def positionalText (keepsPoint : Bool) (d : Decimal) : String :=
  if d.exponent < 0 then "0." ++ zeros (-d.exponent - 1).toNat ++ digitText d.digits
  else
    let whole := d.exponent.toNat + 1
    if d.digits.length ≤ whole then
      digitText d.digits ++ zeros (whole - d.digits.length) ++ (if keepsPoint then ".0" else "")
    else digitText (d.digits.take whole) ++ "." ++ digitText (d.digits.drop whole)

/-- One digit before the point, and a signed exponent. -/
def scientificText (d : Decimal) : String :=
  let fraction := d.digits.drop 1
  digitText (d.digits.take 1) ++ (if fraction.isEmpty then "" else "." ++ digitText fraction)
    ++ "e" ++ (if d.exponent < 0 then "-" else "+") ++ toString d.exponent.natAbs

def magnitudeText (layout : NumberLayout) (m : Magnitude) : String :=
  if m.units = 0 then (if layout.keepsPoint then "0.0" else "0")
  else
    let d := m.shortest layout.tie
    if layout.positional d.exponent then positionalText layout.keepsPoint d else scientificText d

end NumberLayout

namespace Number

/-- Whole numbers below this are written digit by digit. -/
def exactLimit : Nat := tenTo 15

/-- The number as template source writes it. -/
def sourceText : Number → String
  | .nan => "NaN"
  | .infinite negative => if negative then "-inf" else "inf"
  | .finite negative m =>
    if m.isWhole && m.floor < exactLimit then
      (if negative && m.floor ≠ 0 then "-" else "") ++ toString m.floor
    else (if negative then "-" else "") ++ NumberLayout.source.magnitudeText m

/-- The number as JSON writes it, which has no text for numbers that are not finite. -/
def jsonText : Number → String
  | .finite negative m => (if negative then "-" else "") ++ NumberLayout.json.magnitudeText m
  | _ => "null"

end Number

end TemplateLang
