import TemplateLang.Text.Segments

/-! The direction of the output text, left to right or right to left. It is set by an
integer, or derived from a locale: the first script subtag that is known decides, and
without one the language does. -/

namespace TemplateLang

inductive Direction where
  | ltr
  | rtl
deriving DecidableEq

namespace Direction

/-- The direction that an option sets; zero leaves it open. -/
def ofInt? (n : Int) : Option Direction :=
  if 0 < n then some .ltr else if n < 0 then some .rtl else none

def toInt : Direction → Int
  | .ltr => 1
  | .rtl => -1

def startEdge : Direction → String
  | .ltr => "left"
  | .rtl => "right"

def endEdge : Direction → String
  | .ltr => "right"
  | .rtl => "left"

/-! ### Locales -/

def rtlLanguages : List String :=
  ["ar", "ckb", "dv", "fa", "he", "iw", "nqo", "ps", "sd", "ug", "ur", "yi"]

/-- Scripts with a known direction. -/
def ofScript? (subtag : String) : Option Direction :=
  if ["latn", "cyrl"].contains subtag then some .ltr
  else if ["arab", "hebr", "nkoo", "thaa", "tfng"].contains subtag then some .rtl
  else none

def ofLanguage (language : String) : Direction :=
  if rtlLanguages.contains language then .rtl else .ltr

/-- The subtags of a locale in lower case, which `-` and `_` separate. -/
def subtags (locale : String) : List String :=
  let normal := locale.toList.map fun c => (if c = '_' then '-' else c).toLower
  (Text.splitChars '-' normal).map String.ofList

def ofSubtags : List String → Direction
  | [] => .ltr
  | language :: rest => (rest.findSome? ofScript?).getD (ofLanguage language)

/-- The direction of text in a locale. A missing locale is written left to right. -/
def ofLocale : Option String → Direction
  | none => .ltr
  | some locale => ofSubtags (subtags locale)

/-- The direction that is set, or else that of the locale. -/
def resolve (explicit : Int) (locale : Option String) : Direction :=
  (ofInt? explicit).getD (ofLocale locale)

end Direction

end TemplateLang
