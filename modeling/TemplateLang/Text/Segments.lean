/-! Texts made of segments between separators, such as dotted names and locale tags,
and the blanks around a text. -/

namespace TemplateLang.Text

/-- The segments of `s` between the separators; there is always one. -/
def splitChars (separator : Char) : List Char → List (List Char)
  | [] => [[]]
  | c :: rest =>
    if c = separator then [] :: splitChars separator rest
    else match splitChars separator rest with
      | [] => [[c]]
      | segment :: more => (c :: segment) :: more

def split (separator : Char) (s : String) : List String :=
  (splitChars separator s.toList).map String.ofList

def join (separator : String) (segments : List String) : String :=
  separator.intercalate segments

/-- The segment after the last separator. -/
def lastSegment (separator : Char) (s : String) : String :=
  String.ofList (s.toList.reverse.takeWhile (· ≠ separator)).reverse

/-- What stands before the last separator, if there is one. -/
def beforeLast? (separator : Char) (s : String) : Option String :=
  match s.toList.reverse.dropWhile (· ≠ separator) with
  | [] => none
  | _ :: before => some (String.ofList before.reverse)

/-- White space: the tab and line controls, the space, and the spaces and separators beyond
ASCII. -/
def isWhiteSpace (c : Char) : Bool :=
  let n := c.toNat
  (0x9 ≤ n && n ≤ 0xd) || n = 0x20 || n = 0x85 || n = 0xa0 || n = 0x1680 ||
    (0x2000 ≤ n && n ≤ 0x200a) || n = 0x2028 || n = 0x2029 || n = 0x202f || n = 0x205f ||
    n = 0x3000

/-- `s` without the white space at either end. -/
def trimChars (s : List Char) : List Char :=
  ((s.dropWhile isWhiteSpace).reverse.dropWhile isWhiteSpace).reverse

end TemplateLang.Text
