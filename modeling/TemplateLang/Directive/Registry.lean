import TemplateLang.Directive.Basic

/-! Registries: the directives that templates may use. The catalog of directives is fixed, and a
registry has a part of it; there is no way to register a directive that is not built in. -/

namespace TemplateLang

structure Registry where
  contains : Directive → Bool

namespace Registry

/-- The registry of all directives. -/
def full : Registry := ⟨fun _ => true⟩

/-- The registry of the directives named. -/
def ofNames (names : List String) : Registry := ⟨fun d => names.contains d.name⟩

/-- The directives of a registry, in increasing order of name. -/
def toList (r : Registry) : List Directive := Directive.all.filter r.contains

def names (r : Registry) : List String := r.toList.map Directive.name

def lookup (r : Registry) (name : String) : Except CompileError Directive :=
  match r.toList.find? (·.name = name) with
  | some d => .ok d
  | none => .error (.unknownDirective name none)

/-- The directive that a call names, which accepts as many arguments as the call gives. -/
def resolve (r : Registry) (call : DirectiveCall) : Except CompileError Directive := do
  let d ← r.lookup call.name
  d.checkArity call.args.length
  return d

end Registry

end TemplateLang
