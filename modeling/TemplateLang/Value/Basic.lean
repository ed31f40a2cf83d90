import TemplateLang.Json.Basic
import TemplateLang.Number.Layout

/-! Values that templates are given and compute. The fields of an object are listed in
increasing order of name. A value has a text, which prints write, and a truth, which
conditions test; two values can be compared as templates do, where a text equals the
number or truth value that is written so. -/

namespace TemplateLang

inductive Value where
  | null
  | string (s : String)
  | number (n : Number)
  | boolean (b : Bool)
  | array (items : List Value)
  | object (fields : List (String × Value))

namespace Value

/-! ### Text and truth -/

/-- A number as prints write it. -/
def numberText : Number → String
  | .infinite negative => if negative then "-Infinity" else "Infinity"
  | n => n.sourceText

mutual

/-- The text that a print writes. -/
def text : Value → String
  | .null => "null"
  | .string s => s
  | .number n => numberText n
  | .boolean b => if b then "true" else "false"
  | .array items => ", ".intercalate (itemTexts items)
  | .object _ => "[object Object]"

def itemTexts : List Value → List String
  | [] => []
  | item :: rest => text item :: itemTexts rest

end

/-- The truth that a condition tests. -/
def truth : Value → Bool
  | .null => false
  | .string s => s ≠ ""
  | .number n => !n.isZero && !n.isNaN
  | .boolean b => b
  | .array _ | .object _ => true

def isNull : Value → Bool
  | .null => true
  | _ => false

/-! ### Equality -/

mutual

/-- Equality of structure. A value with `nan` in it differs from itself. -/
def same : Value → Value → Bool
  | .null, .null => true
  | .string s, .string t => s = t
  | .number m, .number n => m.equals n
  | .boolean a, .boolean b => a = b
  | .array xs, .array ys => sameItems xs ys
  | .object xs, .object ys => sameFields xs ys
  | _, _ => false

def sameItems : List Value → List Value → Bool
  | [], [] => true
  | x :: xs, y :: ys => same x y && sameItems xs ys
  | _, _ => false

def sameFields : List (String × Value) → List (String × Value) → Bool
  | [], [] => true
  | (m, x) :: xs, (n, y) :: ys => m = n && same x y && sameFields xs ys
  | _, _ => false

end

/-- Equality in templates. -/
def looseEq : Value → Value → Bool
  | .number m, .number n => m.equals n
  | .string s, .number n => s = (Value.number n).text
  | .string s, .boolean b => s = (Value.boolean b).text
  | .number n, .string s => s = (Value.number n).text
  | .boolean b, .string s => s = (Value.boolean b).text
  | a, b => a.same b

/-! ### Paths -/

/-- The value of a field of an object. -/
def field? (name : String) : Value → Option Value
  | .object fields => (fields.find? (·.1 = name)).map (·.2)
  | _ => none

/-- Follows a path through nested objects. -/
def get? : Value → List String → Option Value
  | v, [] => some v
  | v, name :: rest =>
    match v.field? name with
    | some w => get? w rest
    | none => none

/-! ### JSON -/

/-- A number as JSON has it, which is null unless it is finite. -/
def numberToJson (n : Number) : Json := if n.isFinite then .number (.float n) else .null

mutual

def toJson : Value → Json
  | .null => .null
  | .string s => .string s
  | .number n => numberToJson n
  | .boolean b => .bool b
  | .array items => .array (itemsToJson items)
  | .object fields => .object (fieldsToJson fields)

def itemsToJson : List Value → List Json
  | [] => []
  | item :: rest => toJson item :: itemsToJson rest

def fieldsToJson : List (String × Value) → List (String × Json)
  | [] => []
  | (name, value) :: rest => (name, toJson value) :: fieldsToJson rest

end

mutual

/-- The value of a JSON value; all numbers are floating-point numbers. -/
def ofJson : Json → Value
  | .null => .null
  | .bool b => .boolean b
  | .number n => .number n.toNumber
  | .string s => .string s
  | .array items => .array (itemsOfJson items)
  | .object fields => .object (fieldsOfJson fields)

def itemsOfJson : List Json → List Value
  | [] => []
  | item :: rest => ofJson item :: itemsOfJson rest

def fieldsOfJson : List (String × Json) → List (String × Value)
  | [] => []
  | (name, value) :: rest => (name, ofJson value) :: fieldsOfJson rest

end

end Value

end TemplateLang
