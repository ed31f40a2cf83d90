import TemplateLang.Expr.Basic
import TemplateLang.Json.Raw

/-! Expressions and directive calls as JSON. An expression is an object whose single
field names its form. A direction helper is its name, alone or as the single field of
an object whose value is null. A description of templates may write an empty object
for this null. -/

namespace TemplateLang

/-- A choice without content: its name, or an object of that field holding null or, where
`emptyIsNull`, an empty object. -/
def Json.Raw.plainChoice? (emptyIsNull : Bool) : Json.Raw → Option String
  | .string s => s
  | r =>
    match r.choice? with
    | some (name, .null) => some name
    | some (name, .object []) => if emptyIsNull then some name else none
    | _ => none

namespace BidiFn

def jsonName : BidiFn → String
  | .globalDir => "global_dir"
  | .startEdge => "start_edge"
  | .endEdge => "end_edge"

def ofRaw? (emptyIsNull : Bool) (r : Json.Raw) : Option BidiFn := do
  let name ← r.plainChoice? emptyIsNull
  all.find? (·.jsonName = name)

end BidiFn

namespace Expr

/-- Reads an expression that nests at most `depth` deep. -/
def ofRaw? (emptyIsNull : Bool) : Nat → Json.Raw → Option Expr
  | 0, _ => none
  | depth + 1, r => do
    let (form, content) ← r.choice?
    match form with
    | "data" => (content.list? Json.Raw.string?).map .data
    | "str" => content.string?.map .str
    | "number" => content.number?.map .number
    | "bool" => content.bool?.map .bool
    | "not" => (ofRaw? emptyIsNull depth content).map .not
    | "eq" =>
      match content with
      | .array [left, right] =>
        return .eq (← ofRaw? emptyIsNull depth left) (← ofRaw? emptyIsNull depth right)
      | _ => none
    | "bidi" => (BidiFn.ofRaw? emptyIsNull content).map .bidi
    | _ => none

def toJson : Expr → Json
  | .data path => .object [("data", .array (path.map .string))]
  | .str s => .object [("str", .string s)]
  | .number n => .object [("number", .number (.float n))]
  | .bool b => .object [("bool", .bool b)]
  | .not e => .object [("not", toJson e)]
  | .eq left right => .object [("eq", .array [toJson left, toJson right])]
  | .bidi f => .object [("bidi", .string f.jsonName)]

end Expr

namespace DirectiveCall

def ofRaw? (emptyIsNull : Bool) (depth : Nat) (r : Json.Raw) : Option DirectiveCall := do
  match ← r.record? ["name", "args"] with
  | [some name, args] =>
    return ⟨← name.string?, ← (args.getD (.array [])).list? (Expr.ofRaw? emptyIsNull depth)⟩
  | _ => none

def toJson (call : DirectiveCall) : Json :=
  .object [("name", .string call.name), ("args", .array (call.args.map Expr.toJson))]

end DirectiveCall

namespace EscapeContext

def jsonName : EscapeContext → String
  | .html => "html"
  | .jsString => "js_string"
  | .uri => "uri"

def ofRaw? (emptyIsNull : Bool) (r : Json.Raw) : Option EscapeContext := do
  let name ← r.plainChoice? emptyIsNull
  [EscapeContext.html, .jsString, .uri].find? (·.jsonName = name)

end EscapeContext

end TemplateLang
