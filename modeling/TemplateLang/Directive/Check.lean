import TemplateLang.Directive.Registry
import TemplateLang.Tree.Source

/-! Checking the directives of every print before anything is generated: that they are
known, that they accept their number of arguments and, for a given backend, that they
have a form for it. -/

namespace TemplateLang

namespace NodeKind

def isPrint : NodeKind → Bool
  | .print .. => true
  | _ => false

end NodeKind

namespace Tree

/-- A print as diagnostics name it: its source, and its file. -/
def describeSite (t : Tree) (n : NodeRef) : String :=
  match t.filePathOf n with
  | some path => t.source n ++ " (" ++ path ++ ")"
  | none => t.source n

/-- Checks a directive call of the print `n`. -/
def checkCall (t : Tree) (registry : Registry) (backend : Option Backend) (n : NodeRef)
    (call : DirectiveCall) : Except CompileError Unit := do
  let d ← (registry.resolve call).mapError (CompileError.atSite (t.describeSite n))
  match backend with
  | none => return
  | some backend =>
    if d.supports backend then return
    else .error (.unsupportedDirective call.name backend (t.serial n))

def checkNode (t : Tree) (registry : Registry) (backend : Option Backend) (v : View) :
    Except CompileError Unit :=
  match v.kind with
  | .print _ directives _ => directives.forM (t.checkCall registry backend v.ref)
  | _ => .ok ()

/-- Checks the directives of all prints, for a backend if one is given. -/
def checkDirectives (t : Tree) (registry : Registry) (backend : Option Backend) :
    Except CompileError Unit :=
  ((t.view root).nodesWhere fun kind => !kind.isPrint).forM (t.checkNode registry backend)

end Tree

end TemplateLang
