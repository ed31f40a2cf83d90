import TemplateLang.Text.Escape

/-! Cutting text to a number of characters. When there is room for more than the three
dots of an ellipsis they may end the cut text. A cut that would fall inside a
character reference such as `&lt;` moves back to before its ampersand, so text that
was escaped for HTML stays well formed. -/

namespace TemplateLang.Text

/-- Characters between the ampersand and the semicolon of a reference. -/
def isReferenceChar (c : Char) : Bool := isAsciiAlphanumeric c || c = '#'

/-- Whether a reference that `name` begins, up to the cut, is completed by `rest`. -/
def completesReference (name rest : List Char) : Bool :=
  let tail := rest.takeWhile isReferenceChar
  0 < name.length + tail.length && (rest.dropWhile isReferenceChar).head? = some ';'

/-- Where to cut `kept ++ rest`, at the end of `kept` or before the ampersand of a reference
that goes on into `rest`. -/
def cutBefore (kept rest : List Char) : List Char :=
  let reversed := kept.reverse
  match reversed.dropWhile isReferenceChar with
  | '&' :: before =>
    if completesReference (reversed.takeWhile isReferenceChar) rest then before.reverse else kept
  | _ => kept

def ellipsisDots : List Char := ['.', '.', '.']

/-- The characters of `s` cut to at most `limit`. -/
def truncateChars (s : List Char) (limit : Nat) (ellipsis : Bool) : List Char :=
  if s.length ≤ limit then s
  else
    let dots := ellipsis && 3 < limit
    let room := if dots then limit - 3 else limit
    cutBefore (s.take room) (s.drop room) ++ if dots then ellipsisDots else []

def truncate (s : String) (limit : Nat) (ellipsis : Bool) : String :=
  String.ofList (truncateChars s.toList limit ellipsis)

end TemplateLang.Text
