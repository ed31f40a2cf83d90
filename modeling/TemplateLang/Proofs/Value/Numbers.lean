import TemplateLang.Value.Basic

/-! The numbers of values and of JSON, at any depth of arrays and objects, and what comes of a value
when its numbers are replaced and nothing else is. -/

namespace TemplateLang

namespace Value

mutual

/-- The numbers of a value, at any depth. -/
def numbers : Value → List Number
  | .number n => [n]
  | .array items => itemNumbers items
  | .object fields => fieldNumbers fields
  | .null | .string _ | .boolean _ => []

def itemNumbers : List Value → List Number
  | [] => []
  | item :: rest => numbers item ++ itemNumbers rest

def fieldNumbers : List (String × Value) → List Number
  | [] => []
  | (_, value) :: rest => numbers value ++ fieldNumbers rest

end

mutual

/-- The value with `f n` in the place of each number `n`. -/
def mapNumbers (f : Number → Value) : Value → Value
  | .number n => f n
  | .array items => .array (mapItemNumbers f items)
  | .object fields => .object (mapFieldNumbers f fields)
  | .null => .null
  | .string s => .string s
  | .boolean b => .boolean b

def mapItemNumbers (f : Number → Value) : List Value → List Value
  | [] => []
  | item :: rest => mapNumbers f item :: mapItemNumbers f rest

def mapFieldNumbers (f : Number → Value) : List (String × Value) → List (String × Value)
  | [] => []
  | (name, value) :: rest => (name, mapNumbers f value) :: mapFieldNumbers f rest

end

variable {f : Number → Value}

mutual

/-- A value is left as it is exactly when each of its numbers is. -/
theorem mapNumbers_eq_self_iff : ∀ v : Value,
    v.mapNumbers f = v ↔ ∀ n ∈ v.numbers, f n = .number n
  | .null | .string _ | .boolean _ => by simp [mapNumbers, numbers]
  | .number n => by simp [mapNumbers, numbers]
  | .array items => by simp [mapNumbers, numbers, mapItemNumbers_eq_self_iff items]
  | .object fields => by simp [mapNumbers, numbers, mapFieldNumbers_eq_self_iff fields]

theorem mapItemNumbers_eq_self_iff : ∀ items : List Value,
    mapItemNumbers f items = items ↔ ∀ n ∈ itemNumbers items, f n = .number n
  | [] => by simp [mapItemNumbers, itemNumbers]
  | item :: rest => by
    simp only [mapItemNumbers, itemNumbers, List.cons.injEq, List.forall_mem_append,
      mapNumbers_eq_self_iff item, mapItemNumbers_eq_self_iff rest]

theorem mapFieldNumbers_eq_self_iff : ∀ fields : List (String × Value),
    mapFieldNumbers f fields = fields ↔ ∀ n ∈ fieldNumbers fields, f n = .number n
  | [] => by simp [mapFieldNumbers, fieldNumbers]
  | (name, value) :: rest => by
    simp only [mapFieldNumbers, fieldNumbers, List.cons.injEq, Prod.mk.injEq, true_and,
      List.forall_mem_append, mapNumbers_eq_self_iff value, mapFieldNumbers_eq_self_iff rest]

end

end Value

namespace Json

mutual

/-- The numbers of a JSON value, at any depth. -/
def numbers : Json → List JsonNumber
  | .number n => [n]
  | .array items => itemNumbers items
  | .object fields => fieldNumbers fields
  | .null | .bool _ | .string _ => []

def itemNumbers : List Json → List JsonNumber
  | [] => []
  | item :: rest => numbers item ++ itemNumbers rest

def fieldNumbers : List (String × Json) → List JsonNumber
  | [] => []
  | (_, value) :: rest => numbers value ++ fieldNumbers rest

end

theorem mem_fieldNumbers {fields : List (String × Json)} {n : JsonNumber} :
    n ∈ fieldNumbers fields ↔ ∃ f ∈ fields, n ∈ f.2.numbers := by
  induction fields with
  | nil => simp [fieldNumbers]
  | cons f rest ih => simp [fieldNumbers, ih]

mutual

/-- The JSON value with `f n` in the place of each number `n`. -/
def mapNumbers (f : JsonNumber → JsonNumber) : Json → Json
  | .number n => .number (f n)
  | .array items => .array (mapItemNumbers f items)
  | .object fields => .object (mapFieldNumbers f fields)
  | .null => .null
  | .bool b => .bool b
  | .string s => .string s

def mapItemNumbers (f : JsonNumber → JsonNumber) : List Json → List Json
  | [] => []
  | item :: rest => mapNumbers f item :: mapItemNumbers f rest

def mapFieldNumbers (f : JsonNumber → JsonNumber) : List (String × Json) → List (String × Json)
  | [] => []
  | (name, value) :: rest => (name, mapNumbers f value) :: mapFieldNumbers f rest

end

end Json

end TemplateLang
