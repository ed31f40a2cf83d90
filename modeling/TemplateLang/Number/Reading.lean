import TemplateLang.Number.Decimal

/-! Reading a number from decimal text: an optional sign, then digits with an
optional point and an optional exponent, or a name of infinity or of no number.
The result is the number nearest to the decimal. -/

namespace TemplateLang

def digitValue (c : Char) : Nat := c.toNat - '0'.toNat

namespace Number

/-- The number nearest to `digits * 10 ^ exponent`. Exponents that leave the range of finite
numbers far behind are decided without raising ten to them. -/
def ofDecimal (negative : Bool) (digits : List Nat) (exponent : Int) : Number :=
  let digits := digits.dropWhile (· = 0)
  let first : Int := exponent + digits.length
  if digits.isEmpty || first < -400 then .finite negative .zero
  else if 400 < first then .infinite negative
  else ofRatio negative (Decimal.value digits * tenTo exponent.toNat) (tenTo (-exponent).toNat)

/-- A signed run of digits that is all of the text. -/
def signedDigits? (text : List Char) : Option Int :=
  let (negative, digits) : Bool × List Char := match text with
    | '-' :: rest => (true, rest)
    | '+' :: rest => (false, rest)
    | rest => (false, rest)
  if digits.isEmpty || !digits.all Char.isDigit then none
  else
    let n : Int := Decimal.value (digits.map digitValue)
    some (if negative then -n else n)

/-- Digits with an optional point among or beside them, and an optional exponent. -/
def unsignedDecimal? (negative : Bool) (text : List Char) : Option Number :=
  let whole := text.takeWhile Char.isDigit
  let rest := text.dropWhile Char.isDigit
  let (fraction, rest) : List Char × List Char := match rest with
    | '.' :: rest => (rest.takeWhile Char.isDigit, rest.dropWhile Char.isDigit)
    | rest => ([], rest)
  if whole.isEmpty && fraction.isEmpty then none
  else
    let digits := (whole ++ fraction).map digitValue
    match rest with
    | [] => some (ofDecimal negative digits (-fraction.length))
    | e :: rest =>
      if e = 'e' || e = 'E' then
        (signedDigits? rest).map fun n => ofDecimal negative digits (n - fraction.length)
      else none

/-- The number that `text` writes, if all of it is one. -/
def ofText? (text : List Char) : Option Number :=
  let (negative, rest) : Bool × List Char := match text with
    | '-' :: rest => (true, rest)
    | '+' :: rest => (false, rest)
    | rest => (false, rest)
  let name := String.ofList (rest.map Char.toLower)
  if name = "nan" then some .nan
  else if name = "inf" || name = "infinity" then some (.infinite negative)
  else unsignedDecimal? negative rest

end Number

end TemplateLang
