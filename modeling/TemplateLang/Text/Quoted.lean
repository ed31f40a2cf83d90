import TemplateLang.Text.CodePoint

/-! Quoted text as tree dumps show it: between double quotes, on one line, every
character that a reader could not see written by code point. -/

namespace TemplateLang.Text

def lowerHexDigit (n : Nat) : Char :=
  if n < 10 then Char.ofNat ('0'.toNat + n) else Char.ofNat ('a'.toNat + (n - 10))

/-- Hexadecimal digits of `n`, most significant first, in front of `rest`. -/
def lowerHexOnto (n : Nat) (rest : List Char) : List Char :=
  if n < 16 then lowerHexDigit n :: rest
  else lowerHexOnto (n / 16) (lowerHexDigit (n % 16) :: rest)

/-- What stands for `c` between the quotes. -/
def quotedChar (c : Char) : List Char :=
  match c with
  | '"' => ['\\', '"']
  | '\\' => ['\\', '\\']
  | '\n' => ['\\', 'n']
  | '\r' => ['\\', 'r']
  | '\t' => ['\\', 't']
  | '\x00' => ['\\', '0']
  | _ =>
    if isShownByCodePoint c then
      ['\\', 'u', '\x7b'] ++ lowerHexOnto c.toNat ['\x7d']
    else [c]

def quoted (s : String) : String :=
  String.ofList ('"' :: (s.toList.flatMap quotedChar ++ ['"']))

end TemplateLang.Text
