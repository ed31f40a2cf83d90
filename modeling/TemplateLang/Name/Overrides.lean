import TemplateLang.Error

/-! The rule on repeated names: two templates may share a full name only if the later one is
marked as an override. -/

namespace TemplateLang

namespace NodeKind

def holdsTemplates : NodeKind → Bool
  | .fileSet | .file .. => true
  | _ => false

end NodeKind

/-- Templates by full name, the first of each name. -/
abbrev FirstTemplates := List (String × NodeRef)

namespace Tree

/-- The error for a template whose name an earlier one has. -/
def duplicateError (t : Tree) (name : String) (first second : NodeRef) : CompileError :=
  let firstFile := (t.filePathOf first).getD ""
  let secondFile := (t.filePathOf second).getD ""
  if firstFile = secondFile then .duplicateTemplateSameFile name secondFile
  else .duplicateTemplate name firstFile secondFile

/-- Checks one node against the templates before it. -/
def checkOverride (t : Tree) (seen : FirstTemplates) (v : View) :
    Except CompileError FirstTemplates :=
  match v.kind with
  | .template name isOverride _ =>
    if isPartialName name then .error (.partialTemplateName name)
    else
      match seen.find? (·.1 = name) with
      | none => .ok (seen ++ [(name, v.ref)])
      | some (_, first) =>
        if isOverride then .ok seen else .error (t.duplicateError name first v.ref)
  | _ => .ok seen

/-- Refuses a repeated name that is not an override, and names that are not full. -/
def checkOverrides (t : Tree) : Except CompileError Unit := do
  let _ ← ((t.view root).nodesWhere NodeKind.holdsTemplates).foldlM t.checkOverride []

end Tree

end TemplateLang
