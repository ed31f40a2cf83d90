import TemplateLang.Name.Overrides

/-! The check of repeated names as an object that is used again and again. It goes down from the
root, remembers the first template of each name, and keeps what it remembers when it fails; a
run begins by forgetting. -/

namespace TemplateLang

structure OverrideChecker where
  templates : FirstTemplates
deriving DecidableEq

namespace OverrideChecker

/-- A checker that has not run yet. -/
def new : OverrideChecker := ⟨[]⟩

/-- The checker before a run. -/
def setup (c : OverrideChecker) : OverrideChecker := { c with templates := [] }

/-- Checks a node that is no set of templates. -/
def meet (t : Tree) (c : OverrideChecker) (v : View) : Except CompileError Unit × OverrideChecker :=
  match t.checkOverride c.templates v with
  | .ok templates => (.ok (), { c with templates })
  | .error e => (.error e, c)

mutual

/-- Checks a node, and goes below files and the root. -/
def visit (t : Tree) (c : OverrideChecker) : View → Except CompileError Unit × OverrideChecker
  | .node ref serial kind children =>
    if kind.holdsTemplates then visitAll t c children else meet t c (.node ref serial kind children)

def visitAll (t : Tree) (c : OverrideChecker) :
    List View → Except CompileError Unit × OverrideChecker
  | [] => (.ok (), c)
  | v :: rest =>
    match visit t c v with
    | (.ok (), c) => visitAll t c rest
    | (.error e, c) => (.error e, c)

end

/-- A run over a whole tree. -/
def exec (c : OverrideChecker) (t : Tree) : Except CompileError Unit × OverrideChecker :=
  c.setup.visit t (t.view Tree.root)

/-- The results of runs over trees, one after the other with the same checker. -/
def runs (c : OverrideChecker) : List Tree → List (Except CompileError Unit)
  | [] => []
  | t :: rest => (c.exec t).1 :: (c.exec t).2.runs rest

end OverrideChecker

end TemplateLang
