import TemplateLang.Json.Numeral
import TemplateLang.Number.Reading

/-! The tokens of JSON text. A string token holds its text, or nothing when an escape
names half of a surrogate pair without the other half: such a string is well formed
but cannot be read. Blanks between tokens are spaces, tabs and line breaks. -/

namespace TemplateLang.Json

inductive Token where
  | openArray
  | closeArray
  | openObject
  | closeObject
  | comma
  | colon
  | null
  | bool (b : Bool)
  | number (n : Numeral)
  | string (s : Option String)

namespace Token

/-! ### Strings -/

def hexValue? (c : Char) : Option Nat :=
  if c.isDigit then some (digitValue c)
  else if 'a' ≤ c && c ≤ 'f' then some (c.toNat - 'a'.toNat + 10)
  else if 'A' ≤ c && c ≤ 'F' then some (c.toNat - 'A'.toNat + 10)
  else none

/-- The character that a one-letter escape names. -/
def escaped? : Char → Option Char
  | '"' => some '"'
  | '\\' => some '\\'
  | '/' => some '/'
  | 'b' => some '\x08'
  | 'f' => some '\x0c'
  | 'n' => some '\n'
  | 'r' => some '\r'
  | 't' => some '\t'
  | _ => none

/-- Code points of a string, surrogates not yet paired, up to its closing quote. -/
def stringCodes? : List Char → List Nat → Option (List Nat × List Char)
  | '"' :: rest, codes => some (codes.reverse, rest)
  | '\\' :: 'u' :: a :: b :: c :: d :: rest, codes =>
    match hexValue? a, hexValue? b, hexValue? c, hexValue? d with
    | some a, some b, some c, some d =>
      stringCodes? rest ((((a * 16 + b) * 16 + c) * 16 + d) :: codes)
    | _, _, _, _ => none
  | '\\' :: c :: rest, codes =>
    match escaped? c with
    | some c => stringCodes? rest (c.toNat :: codes)
    | none => none
  | c :: rest, codes => if c.toNat < 0x20 then none else stringCodes? rest (c.toNat :: codes)
  | [], _ => none

def isLeadingSurrogate (n : Nat) : Bool := 0xd800 ≤ n && n ≤ 0xdbff

def isTrailingSurrogate (n : Nat) : Bool := 0xdc00 ≤ n && n ≤ 0xdfff

/-- Joins surrogate pairs, unless one half stands alone. -/
def pairSurrogates? : List Nat → List Char → Option (List Char)
  | [], chars => some chars.reverse
  | a :: b :: rest, chars =>
    if isTrailingSurrogate a then none
    else if isLeadingSurrogate a then
      if isTrailingSurrogate b then
        pairSurrogates? rest (Char.ofNat (0x10000 + (a - 0xd800) * 0x400 + (b - 0xdc00)) :: chars)
      else none
    else pairSurrogates? (b :: rest) (Char.ofNat a :: chars)
  | [a], chars =>
    if isTrailingSurrogate a || isLeadingSurrogate a then none
    else some (Char.ofNat a :: chars).reverse

/-! ### Numbers -/

/-- Takes the digits at the front of the text, of which there is at least one. -/
def digits? (text : List Char) : Option (List Nat × List Char) :=
  let digits := text.takeWhile Char.isDigit
  if digits.isEmpty then none
  else some (digits.map digitValue, text.dropWhile Char.isDigit)

def fraction? : List Char → Option (List Nat × List Char)
  | '.' :: rest => digits? rest
  | rest => some ([], rest)

/-- Takes an optional exponent. -/
def exponent? (text : List Char) : Option (Option Int × List Char) :=
  match text with
  | [] => some (none, [])
  | e :: rest =>
    if e = 'e' || e = 'E' then
      let (negative, rest) : Bool × List Char := match rest with
        | '-' :: rest => (true, rest)
        | '+' :: rest => (false, rest)
        | rest => (false, rest)
      (digits? rest).map fun (digits, rest) =>
        let n : Int := Decimal.value digits
        (some (if negative then -n else n), rest)
    else some (none, text)

/-- Takes a number after its sign. The whole part has no leading zeros. -/
def numeral? (negative : Bool) (text : List Char) : Option (Numeral × List Char) := do
  let (whole, rest) ← digits? text
  if whole.head? = some 0 ∧ whole.length ≠ 1 then none
  else
    let (fraction, rest) ← fraction? rest
    let (exponent, rest) ← exponent? rest
    some (⟨negative, whole, fraction, exponent⟩, rest)

/-! ### Text -/

/-- Takes the token that begins with `c` and goes on into the text. -/
def take? (c : Char) (text : List Char) : Option (Token × List Char) :=
  match c, text with
  | '[', rest => some (.openArray, rest)
  | ']', rest => some (.closeArray, rest)
  | '\x7b', rest => some (.openObject, rest)
  | '\x7d', rest => some (.closeObject, rest)
  | ',', rest => some (.comma, rest)
  | ':', rest => some (.colon, rest)
  | 'n', 'u' :: 'l' :: 'l' :: rest => some (.null, rest)
  | 't', 'r' :: 'u' :: 'e' :: rest => some (.bool true, rest)
  | 'f', 'a' :: 'l' :: 's' :: 'e' :: rest => some (.bool false, rest)
  | '"', rest => (stringCodes? rest []).map fun (codes, rest) =>
      (.string ((pairSurrogates? codes []).map String.ofList), rest)
  | '-', rest => (numeral? true rest).map fun (n, rest) => (.number n, rest)
  | c, rest =>
    if c.isDigit then (numeral? false (c :: rest)).map fun (n, rest) => (.number n, rest)
    else none

def isBlank (c : Char) : Bool := c = ' ' || c = '\t' || c = '\n' || c = '\r'

/-- The tokens of a text of at most `size` characters, after those in `taken`, last first. -/
def scan? : Nat → List Char → List Token → Option (List Token)
  | _, [], taken => some taken.reverse
  | 0, _ :: _, _ => none
  | size + 1, c :: rest, taken =>
    if isBlank c then scan? size rest taken
    else match take? c rest with
      | some (token, rest) => scan? size rest (token :: taken)
      | none => none

def ofText? (text : String) : Option (List Token) :=
  let chars := text.toList
  scan? chars.length chars []

end Token

end TemplateLang.Json
