import TemplateLang.Expr.Json

/-! Descriptions of file sets: the form in which parsed templates arrive. A file has a
path, a namespace and templates; a template has a body of items. In JSON a record is
an object of its fields or an array of them in order; an item names its kind in the
field `kind` or in front of the array. Items nested in others may give the kind by its
number. Fields with a default may be left out, and fields that are not known are passed
over. -/

namespace TemplateLang

mutual

/-- An item of a template's body. -/
inductive Item where
  | text (content : String)
  | print (expr : Expr) (directives : List DirectiveCall) (escape : Option EscapeContext)
  | cond (branches : List Branch) (otherwise : Option (List Item))
  | msg (key desc : String) (body : List Item)
  | call (callee : String) (passesData : Bool)

/-- A branch of a conditional block. -/
inductive Branch where
  | mk (condition : Expr) (body : List Item)

end

structure TemplateDescription where
  name : String
  isOverride : Bool
  autoescape : Bool
  body : List Item

structure FileDescription where
  path : String
  ns : String
  templates : List TemplateDescription

structure FileSetDescription where
  files : List FileDescription

/-! ### Reading -/

open Json (Raw)

namespace Item

/-- The kinds in order of their numbers. -/
def kindNames : List String := ["text", "print", "if", "msg", "call"]

/-- The fields of an item of the given kind, in order. -/
def fieldNames : String → List String
  | "text" => ["text"]
  | "print" => ["expr", "directives", "escape"]
  | "if" => ["branches", "else_body"]
  | "msg" => ["key", "desc", "body"]
  | "call" => ["callee", "data_all"]
  | _ => []

/-- The kind that a value names, which may be a number where `nested`. -/
def kindName? (nested : Bool) : Raw → Option String
  | .string s => s
  | .number n =>
    match nested, n.read? with
    | true, some (.integer (.ofNat i)) => kindNames[i]?
    | _, _ => none
  | _ => none

/-- Splits an item into its kind and the rest of it. -/
def kindAndRest? (nested : Bool) : Raw → Option (String × Raw)
  | .array (kind :: rest) => do return (← kindName? nested kind, .array rest)
  | .object fields => do
    match ← Raw.field? fields "kind" with
    | some kind =>
      return (← kindName? nested kind, .object (fields.filter (·.1 ≠ some "kind")))
    | none => none
  | _ => none

/-- A list where it is given, and an empty one otherwise. -/
def listOrEmpty? {α : Type} (f : Raw → Option α) : Option Raw → Option (List α)
  | none => some []
  | some r => r.list? f

def escape? (emptyIsNull : Bool) : Option Raw → Option (Option EscapeContext)
  | none | some .null => some none
  | some r => (EscapeContext.ofRaw? emptyIsNull r).map some

/-- Reads an item that nests at most `depth` deep. -/
def ofRaw? : Nat → Bool → Raw → Option Item
  | 0, _, _ => none
  | depth + 1, nested, r => do
    let (kind, rest) ← kindAndRest? nested r
    let branch? : Raw → Option Branch := fun r => do
      match ← r.record? ["condition", "body"] with
      | [some condition, body] =>
        return .mk (← Expr.ofRaw? true depth condition) (← listOrEmpty? (ofRaw? depth true) body)
      | _ => none
    match kind, ← rest.record? (fieldNames kind) with
    | "text", [some content] => return .text (← content.string?)
    | "print", [some expr, directives, escape] =>
      return .print (← Expr.ofRaw? true depth expr)
        (← listOrEmpty? (DirectiveCall.ofRaw? true depth) directives) (← escape? true escape)
    | "if", [some branches, otherwise] =>
      let otherwise ← match otherwise with
        | none | some .null => some none
        | some body => (body.list? (ofRaw? depth true)).map some
      return .cond (← branches.list? branch?) otherwise
    | "msg", [some key, desc, body] =>
      return .msg (← key.string?) (← (desc.getD (.string (some ""))).string?)
        (← listOrEmpty? (ofRaw? depth true) body)
    | "call", [some callee, passesData] =>
      return .call (← callee.string?) (← (passesData.getD (.bool false)).bool?)
    | _, _ => none

/-- Arrays and objects around the items of a template. -/
def outerNesting : Nat := 6

/-- Reads an item of a template. An item is read as a whole before its fields are looked at, so
no part of it may be unreadable. -/
def ofTemplate? (r : Raw) : Option Item :=
  let depth := Raw.nestingLimit - outerNesting
  if r.isReadable depth then ofRaw? (depth + 1) false r else none

end Item

namespace TemplateDescription

def ofRaw? (r : Raw) : Option TemplateDescription := do
  match ← r.record? ["name", "override", "autoescape", "body"] with
  | [some name, isOverride, autoescape, body] =>
    return {
      name := ← name.string?
      isOverride := ← (isOverride.getD (.bool false)).bool?
      autoescape := ← (autoescape.getD (.bool true)).bool?
      body := ← Item.listOrEmpty? Item.ofTemplate? body }
  | _ => none

end TemplateDescription

namespace FileDescription

def ofRaw? (r : Raw) : Option FileDescription := do
  match ← r.record? ["path", "namespace", "templates"] with
  | [some path, some ns, templates] =>
    return ⟨← path.string?, ← ns.string?, ← Item.listOrEmpty? TemplateDescription.ofRaw? templates⟩
  | _ => none

end FileDescription

namespace FileSetDescription

def ofRaw? (r : Raw) : Option FileSetDescription := do
  match ← r.record? ["files"] with
  | [some files] => return ⟨← files.list? FileDescription.ofRaw?⟩
  | _ => none

/-- Reads a description from JSON text. -/
def ofText? (text : String) : Option FileSetDescription := do
  ofRaw? (← Raw.ofText? text)

end FileSetDescription

end TemplateLang
