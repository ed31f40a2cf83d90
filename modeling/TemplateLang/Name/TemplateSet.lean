import TemplateLang.Error

/-! The templates in effect: for each full name of a template of some file, the definition
that counts. Names stand in the order of their first definitions. -/

namespace TemplateLang

/-- Which definition of an overridden template counts. -/
inductive OverridePolicy where
  | keepFirst
  | keepLast
deriving DecidableEq

/-- Definitions in effect by full name. -/
structure TemplateSet where
  entries : List (String × NodeRef)
deriving DecidableEq

namespace TemplateSet

def get? (s : TemplateSet) (name : String) : Option NodeRef :=
  (s.entries.find? (·.1 = name)).map (·.2)

def names (s : TemplateSet) : List String := s.entries.map (·.1)

def size (s : TemplateSet) : Nat := s.entries.length

/-- Replaces the definition of a name. -/
def replace (name : String) (n : NodeRef) : List (String × NodeRef) → List (String × NodeRef)
  | [] => []
  | (other, old) :: rest =>
    if other = name then (other, n) :: rest else (other, old) :: replace name n rest

/-- Adds a definition after those before it. -/
def insert (policy : OverridePolicy) (s : TemplateSet) (name : String) (n : NodeRef) :
    TemplateSet :=
  match s.get? name with
  | none => ⟨s.entries ++ [(name, n)]⟩
  | some _ =>
    match policy with
    | .keepFirst => s
    | .keepLast => ⟨replace name n s.entries⟩

/-- Adds the definition that a node is, if it is a template. -/
def insertNode (t : Tree) (policy : OverridePolicy) (s : TemplateSet) (n : NodeRef) :
    Except CompileError TemplateSet :=
  match t.kind n with
  | .template name _ _ =>
    if isPartialName name then .error (.partialTemplateName name)
    else .ok (s.insert policy name n)
  | _ => .ok s

/-- The templates in effect among those of all files. -/
def resolve (t : Tree) (policy : OverridePolicy) : Except CompileError TemplateSet :=
  (t.files.flatMap t.children).foldlM (insertNode t policy) ⟨[]⟩

/-- Whether a node is the definition in effect for its name. -/
def isInEffect (s : TemplateSet) (t : Tree) (n : NodeRef) : Bool :=
  match t.kind n with
  | .template name _ _ => s.get? name = some n
  | _ => false

end TemplateSet

end TemplateLang
