/-! The escapes of template output. Each changes a text character by character: HTML
references for the five special characters, percent triples of the UTF-8 bytes for
URIs, backslash sequences for JavaScript strings in either kind of quote. Line
breaks become `<br>`, a carriage return and the line feed after it counting as
one. -/

namespace TemplateLang.Text

/-- Puts `f c` in place of each character `c` of `s`. -/
def substitute (f : Char → List Char) (s : String) : String := String.ofList (s.toList.flatMap f)

/-! ### HTML -/

/-- The reference that stands for `c` in HTML text, or `c` itself. -/
def htmlReference : Char → List Char
  | '&' => ['&', 'a', 'm', 'p', ';']
  | '<' => ['&', 'l', 't', ';']
  | '>' => ['&', 'g', 't', ';']
  | '"' => ['&', 'q', 'u', 'o', 't', ';']
  | '\'' => ['&', '#', '3', '9', ';']
  | c => [c]

def escapeHtml : String → String := substitute htmlReference

/-! ### URIs -/

def isAsciiAlphanumeric (c : Char) : Bool :=
  ('0' ≤ c && c ≤ '9') || ('a' ≤ c && c ≤ 'z') || ('A' ≤ c && c ≤ 'Z')

/-- Characters that stand for themselves in an escaped URI. -/
def isUnreserved (c : Char) : Bool :=
  isAsciiAlphanumeric c || c = '-' || c = '_' || c = '.' || c = '*'

/-- The upper-case hexadecimal digit for `n`, which is below 16. -/
def upperHexDigit (n : Nat) : Char :=
  if n < 10 then Char.ofNat ('0'.toNat + n) else Char.ofNat ('A'.toNat + (n - 10))

def percentTriple (b : UInt8) : List Char :=
  ['%', upperHexDigit (b.toNat / 16), upperHexDigit (b.toNat % 16)]

def uriTriples (c : Char) : List Char :=
  if isUnreserved c then [c] else (String.utf8EncodeChar c).flatMap percentTriple

def escapeUri : String → String := substitute uriTriples

/-! ### JavaScript strings -/

/-- The escape sequence that stands for `c` between quotes, or `c` itself. -/
def jsSequence : Char → List Char
  | '\\' => ['\\', '\\']
  | '\'' => ['\\', '\'']
  | '"' => ['\\', '"']
  | '\n' => ['\\', 'n']
  | '\r' => ['\\', 'r']
  | '\t' => ['\\', 't']
  | '<' => ['\\', 'x', '3', 'c']
  | '>' => ['\\', 'x', '3', 'e']
  | '&' => ['\\', 'x', '2', '6']
  | '\u2028' => ['\\', 'u', '2', '0', '2', '8']
  | '\u2029' => ['\\', 'u', '2', '0', '2', '9']
  | c => [c]

def escapeJsString : String → String := substitute jsSequence

/-! ### Line breaks -/

def breakTag : List Char := ['<', 'b', 'r', '>']

/-- Puts `<br>` in place of each line break. -/
def breakLines : List Char → List Char
  | [] => []
  | '\r' :: '\n' :: rest => breakTag ++ breakLines rest
  | c :: rest => (if c = '\r' || c = '\n' then breakTag else [c]) ++ breakLines rest

def changeNewlineToBr (s : String) : String := String.ofList (breakLines s.toList)

end TemplateLang.Text
