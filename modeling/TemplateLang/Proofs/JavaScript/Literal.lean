import TemplateLang.Proofs.JavaScript.Token
import TemplateLang.Proofs.Text.Literal

/-! String literals of JavaScript, with the escape sequences of strict code: single characters, two
or four hexadecimal digits, code points in braces, and line continuations. Tokens of generated
expressions need only some of these; a text may be written with any of them, and the literal
that is written for it is read as the text. -/

namespace TemplateLang.JavaScript

open Literal

/-! ### Reading -/

def isLineTerminator (c : Char) : Bool := Token.isLineEnd c || c = '\u2028' || c = '\u2029'

/-- Reads digits up to the closing brace as a code point. -/
def bracedCode? (text : List Char) : Option (List ℕ × List Char) := do
  let digits := text.takeWhile (· ≠ '\x7d')
  let code ← hexNumber? digits
  if digits = [] ∨ 0x10ffff < code ∨ digits.length = text.length then none
  else return ([code], text.drop (digits.length + 1))

/-- What the character behind a backslash stands for. A line terminator stands for nothing: the
literal goes on in the next line. -/
def escapedCodes? (c : Char) : Option (List ℕ) :=
  if isLineTerminator c then some [] else (Token.escaped? c).map fun c => [c.toNat]

/-- Reads what stands behind a backslash. -/
def escape? : List Char → Option (List ℕ × List Char)
  | '\r' :: '\n' :: rest => some ([], rest)
  | '0' :: rest => if rest.head?.any Char.isDigit then none else some ([0], rest)
  | 'x' :: a :: b :: rest => (hexNumber? [a, b]).map fun code => ([code], rest)
  | 'u' :: '\x7b' :: rest => bracedCode? rest
  | 'u' :: a :: b :: c :: d :: rest => (hexNumber? [a, b, c, d]).map fun code => ([code], rest)
  | c :: rest => (escapedCodes? c).map fun codes => (codes, rest)
  | [] => none

/-- Reads one character or escape sequence between quotes. -/
def element? : List Char → Option (List ℕ × List Char)
  | '\\' :: rest => escape? rest
  | c :: rest => if Token.isLineEnd c then none else some ([c.toNat], rest)
  | [] => none

/-- Reads a literal in single quotes at the front of a text: its value and what follows it. -/
def literal? : List Char → Option (String × List Char) := read? '\'' element?

/-! ### Literals of texts -/

theorem isUnit_jsSequence (c : Char) : IsUnit ['\'', '"']
    ['\n', '\r', '\u2028', '\u2029', '<', '>', '&'] (Text.jsSequence c) := by
  unfold Text.jsSequence
  split
  all_goals try exact .escape (by decide) (by simp [IsPlain])
  -- what is left is a character that stands for itself
  refine .plain ?_
  simp_all [IsPlain]

theorem reads_jsSequence : Literal.Reads '\'' element? Text.jsSequence where
  exists_head c := (isUnit_jsSequence c).exists_head (by decide) (by decide)
  element?_append c rest := by
    unfold Text.jsSequence
    split
    all_goals try rfl
    rename_i hback _ _ hfeed hreturn _ _ _ _ _ _
    rw [List.singleton_append, element?.eq_2 c rest hback, if_neg]
    simpa [Token.isLineEnd] using ⟨hfeed, hreturn⟩

/-- The literal of a text is read as the text, whatever follows it. -/
theorem literal?_literal (s : String) (rest : List Char) :
    literal? ((literal s).toList ++ rest) = some (s, rest) := by
  rw [toList_literal_append, literal?, reads_jsSequence.read?_literal, String.ofList_toList]

end TemplateLang.JavaScript
