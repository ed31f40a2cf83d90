import TemplateLang.Number.Layout
import TemplateLang.Text.Segments

/-! Expressions of templates: references to data, literals, negation, equality and the
helpers whose value depends on the direction of the text. A directive call names a
transformation of a printed value and gives its arguments. Both have a source form,
by which bundles refer to the prints of a message. -/

namespace TemplateLang

/-- A helper whose value depends on the direction of the text. -/
inductive BidiFn where
  | globalDir
  | startEdge
  | endEdge
deriving DecidableEq

namespace BidiFn

def sourceName : BidiFn → String
  | .globalDir => "bidiGlobalDir"
  | .startEdge => "bidiStartEdge"
  | .endEdge => "bidiEndEdge"

def all : List BidiFn := [.globalDir, .startEdge, .endEdge]

end BidiFn

inductive Expr where
  | data (path : List String)
  | str (s : String)
  | number (n : Number)
  | bool (b : Bool)
  | not (e : Expr)
  | eq (left right : Expr)
  | bidi (f : BidiFn)
deriving DecidableEq

namespace Expr

/-- The reference to a path written with dots. -/
def ofPath (path : String) : Expr := .data (Text.split '.' path)

/-- What stands for `c` between the quotes of a string literal. -/
def literalChar : Char → List Char
  | '\\' => ['\\', '\\']
  | '\'' => ['\\', '\'']
  | c => [c]

def boolText (b : Bool) : String := if b then "true" else "false"

/-- The expression as template source writes it. -/
def source : Expr → String
  | .data path => "$" ++ Text.join "." path
  | .str s => "'" ++ String.ofList (s.toList.flatMap literalChar) ++ "'"
  | .number n => n.sourceText
  | .bool b => boolText b
  | .not e => "not " ++ source e
  | .eq left right => source left ++ " == " ++ source right
  | .bidi f => f.sourceName ++ "()"

end Expr

/-- A directive of a print, with its arguments. -/
structure DirectiveCall where
  name : String
  args : List Expr
deriving DecidableEq

namespace DirectiveCall

def source (call : DirectiveCall) : String :=
  if call.args.isEmpty then call.name
  else call.name ++ ":" ++ Text.join "," (call.args.map Expr.source)

end DirectiveCall

/-- The place in the output that a printed value goes to, which decides its escape. -/
inductive EscapeContext where
  | html
  | jsString
  | uri
deriving DecidableEq

namespace EscapeContext

/-- The name of the directive that escapes for this context. -/
def defaultDirective : EscapeContext → String
  | .html => "|escapeHtml"
  | .jsString => "|escapeJsString"
  | .uri => "|escapeUri"

def label : EscapeContext → String
  | .html => "Html"
  | .jsString => "JsString"
  | .uri => "Uri"

end EscapeContext

end TemplateLang
