import TemplateLang.Json.Token

/-! JSON text whose form has been checked, but whose numerals and strings have not been
read. A reader that passes over a field it does not know passes over numbers beyond
the finite ones, strings that cannot be read and nesting of any depth; one that reads
the field refuses these. Values are built from tokens on a stack of the arrays and
objects still open. -/

namespace TemplateLang.Json

inductive Raw where
  | null
  | bool (b : Bool)
  | number (n : Numeral)
  | string (s : Option String)
  | array (items : List Raw)
  | object (fields : List (Option String × Raw))

namespace Raw

/-! ### Building from tokens -/

/-- An array or object still open, with what it holds so far, last first. -/
inductive Open where
  | array (items : List Raw)
  | object (fields : List (Option String × Raw)) (name : Option String)

/-- What may come next. -/
inductive Expecting where
  | value
  | firstItem
  | firstName
  | name (fields : List (Option String × Raw))
  | colon (fields : List (Option String × Raw)) (name : Option String)
  | afterValue (value : Raw)

/-- Starts a value whose first token is given; a scalar is complete at once. -/
def begin? : Token → List Open → Option (Expecting × List Open)
  | .openArray, outer => some (.firstItem, outer)
  | .openObject, outer => some (.firstName, outer)
  | .null, outer => some (.afterValue .null, outer)
  | .bool b, outer => some (.afterValue (.bool b), outer)
  | .number n, outer => some (.afterValue (.number n), outer)
  | .string s, outer => some (.afterValue (.string s), outer)
  | _, _ => none

def step? : Expecting → Token → List Open → Option (Expecting × List Open)
  | .value, token, outer => begin? token outer
  | .firstItem, .closeArray, outer => some (.afterValue (.array []), outer)
  | .firstItem, token, outer => begin? token (.array [] :: outer)
  | .firstName, .closeObject, outer => some (.afterValue (.object []), outer)
  | .firstName, .string name, outer => some (.colon [] name, outer)
  | .name fields, .string name, outer => some (.colon fields name, outer)
  | .colon fields name, .colon, outer => some (.value, .object fields name :: outer)
  | .afterValue v, .comma, .array items :: outer => some (.value, .array (v :: items) :: outer)
  | .afterValue v, .closeArray, .array items :: outer =>
    some (.afterValue (.array (v :: items).reverse), outer)
  | .afterValue v, .comma, .object fields name :: outer =>
    some (.name ((name, v) :: fields), outer)
  | .afterValue v, .closeObject, .object fields name :: outer =>
    some (.afterValue (.object ((name, v) :: fields).reverse), outer)
  | _, _, _ => none

def build? : List Token → Expecting → List Open → Option Raw
  | [], .afterValue v, [] => some v
  | [], _, _ => none
  | token :: rest, expecting, outer =>
    match step? expecting token outer with
    | some (expecting, outer) => build? rest expecting outer
    | none => none

def ofText? (text : String) : Option Raw := do
  build? (← Token.ofText? text) .value []

/-! ### Reading -/

/-- Most arrays and objects that may be open at once. -/
def nestingLimit : Nat := 127

mutual

/-- The value, if all of it can be read and nests at most `depth` deep. -/
def read? (depth : Nat) : Raw → Option Json
  | .null => some .null
  | .bool b => some (.bool b)
  | .number n => n.read?.map .number
  | .string s => s.map .string
  | .array items => if depth = 0 then none else (readItems? (depth - 1) items).map .array
  | .object fields =>
    if depth = 0 then none
    else (readFields? (depth - 1) fields).map fun fields => .object (sortFields fields)

def readItems? (depth : Nat) : List Raw → Option (List Json)
  | [] => some []
  | item :: rest => do return (← read? depth item) :: (← readItems? depth rest)

def readFields? (depth : Nat) : List (Option String × Raw) → Option (List (String × Json))
  | [] => some []
  | (name, value) :: rest => do
    return (← name, ← read? depth value) :: (← readFields? depth rest)

end

/-- Whether the whole value can be read at this depth. -/
def isReadable (depth : Nat) (r : Raw) : Bool := (read? depth r).isSome

def string? : Raw → Option String
  | .string s => s
  | _ => none

def bool? : Raw → Option Bool
  | .bool b => some b
  | _ => none

def number? : Raw → Option Number
  | .number n => n.read?.map JsonNumber.toNumber
  | _ => none

/-- The items of an array, each read by `f`. -/
def list? {α : Type} (f : Raw → Option α) : Raw → Option (List α)
  | .array items => items.mapM f
  | _ => none

/-- The single field of an object that names a choice, with what is chosen. -/
def choice? : Raw → Option (String × Raw)
  | .object [(some name, value)] => some (name, value)
  | _ => none

/-- The value of the field `name` among `fields`: absent, or there once. -/
def field? (fields : List (Option String × Raw)) (name : String) : Option (Option Raw) :=
  match fields.filter (·.1 = some name) with
  | [] => some none
  | [(_, value)] => some (some value)
  | _ => none

/-- The values of a record's fields. An object gives each at most once and may have others; an
array gives them by position and may end early. -/
def record? (names : List String) : Raw → Option (List (Option Raw))
  | .object fields =>
    if fields.all (·.1.isSome) then names.mapM (field? fields) else none
  | .array items =>
    if items.length ≤ names.length then
      some (items.map some ++ List.replicate (names.length - items.length) none)
    else none
  | _ => none

end Raw

/-- Reads a whole text as one value. -/
def ofText? (text : String) : Option Json := do
  (← Raw.ofText? text).read? Raw.nestingLimit

end TemplateLang.Json
