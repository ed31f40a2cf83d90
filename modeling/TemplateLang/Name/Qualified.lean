import TemplateLang.Tree.View

/-! Full names. A partial name of a template or a callee is relative to the namespace of the
file around it, and becomes full by putting that namespace in front. -/

namespace TemplateLang

/-- The full name for a name within a namespace. -/
def qualify (ns name : String) : String := if isPartialName name then ns ++ name else name

namespace NodeKind

/-- Kinds below which names are looked for. -/
def holdsNames : NodeKind → Bool
  | .text _ | .print .. | .call .. => false
  | _ => true

/-- Makes the name of a template or callee full. The namespace is that of the last file met. -/
def qualifyName (ns : String) : NodeKind → String × NodeKind
  | .file path ns => (ns, .file path ns)
  | .template name isOverride autoescape =>
    (ns, .template (qualify ns name) isOverride autoescape)
  | .call callee passesData => (ns, .call (qualify ns callee) passesData)
  | kind => (ns, kind)

end NodeKind

/-- Makes all names of templates and callees full. -/
def Tree.qualifyNames (t : Tree) : Tree :=
  (t.mapKinds NodeKind.holdsNames NodeKind.qualifyName "").2

end TemplateLang
