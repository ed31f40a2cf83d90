import TemplateLang.Json.Raw
import TemplateLang.Render.Error
import TemplateLang.Value.Basic

/-! The data of a rendering: values by name. -/

namespace TemplateLang

/-- Values by name, in increasing order of name. -/
structure Data where
  fields : List (String × Value)

namespace Data

def empty : Data := ⟨[]⟩

def insert (d : Data) (name : String) (v : Value) : Data := ⟨Json.insertField name v d.fields⟩

def size (d : Data) : Nat := d.fields.length

def isEmpty (d : Data) : Bool := d.fields.isEmpty

/-- The value that a path leads to, if it leads anywhere. -/
def get? (d : Data) : List String → Option Value
  | [] => none
  | name :: rest => ((d.fields.find? (·.1 = name)).map (·.2)).bind (·.get? rest)

def ofValue : Value → Except RenderError Data
  | .object fields => .ok ⟨fields⟩
  | v => .error (.dataNotObject v.text)

/-- Reads data from JSON text, which has to be an object. -/
def ofText (text : String) : Except RenderError Data :=
  match Json.ofText? text with
  | none => .error .malformedData
  | some j => ofValue (.ofJson j)

end Data

end TemplateLang
