import TemplateLang.Directive.Check

/-! Escaping by default. Prints of templates that escape are marked with the HTML context
unless they have a context already, and each marked print gets the directive of its
context in front of its own, unless one of these cancels it. -/

namespace TemplateLang

/-! ### Contexts -/

namespace NodeKind

/-- Marks a print, when the last template met escapes. -/
def markSite (escapes : Bool) : NodeKind → Bool × NodeKind
  | .template name isOverride autoescape => (autoescape, .template name isOverride autoescape)
  | .print expr directives none =>
    (escapes, .print expr directives (if escapes then some .html else none))
  | kind => (escapes, kind)

end NodeKind

/-- Marks every print of a template that escapes. -/
def Tree.markEscapingSites (t : Tree) : Tree :=
  (t.mapKinds (fun kind => !kind.isPrint) NodeKind.markSite false).2

/-! ### Default directives -/

/-- Whether one of the directives cancels the default escape. Those behind it are not looked
up. -/
def cancelsEscape (registry : Registry) : List DirectiveCall → Except CompileError Bool
  | [] => .ok false
  | call :: rest => do
    if (← registry.lookup call.name).cancelsAutoescape then return true
    else cancelsEscape registry rest

/-- The count of directives inserted, or the error at which the pass stopped. -/
abbrev Insertions := Except CompileError Nat

namespace NodeKind

/-- Inserts the default directive of a marked print, unless the pass has stopped. -/
def insertEscape (registry : Registry) : Insertions → NodeKind → Insertions × NodeKind
  | .ok count, .print expr directives (some context) =>
    let same := .print expr directives (some context)
    match cancelsEscape registry directives with
    | .error e => (.error e, same)
    | .ok true => (.ok count, same)
    | .ok false =>
      (.ok (count + 1), .print expr (⟨context.defaultDirective, []⟩ :: directives) (some context))
  | count, kind => (count, kind)

end NodeKind

/-- Gives every marked print its default directive, and tells how many were inserted. Prints
before a failure keep theirs. -/
def Tree.insertEscapes (t : Tree) (registry : Registry) : Insertions × Tree :=
  t.mapKinds (fun kind => !kind.isPrint) (NodeKind.insertEscape registry) (.ok 0)

end TemplateLang
