import TemplateLang.CommandLine.Options
import TemplateLang.Compile
import TemplateLang.Tree.Dump

/-! The command that compiles a file set. The units are written below a directory, or to the
output one after the other; instead of compiling, the loaded tree can be shown. -/

namespace TemplateLang.CompilerCommand

def version : String := "stencilc 0.1.0"

def rules : CommandRules where
  options :=
    [.choice "backend" (some 'b') ["js", "java"], .path "bundle" none, .bidiDir,
      .choice "overrides" none ["first", "last"], .text "package" none, .path "output" (some 'o'),
      .flag "verbose" (some 'v'), .flag "dump-tree" none]
  required := []

def options (input : String) (g : Given) : CompileOptions where
  input := input
  target := if g.value? "backend" = some "java" then .java else .js
  bundle := g.value? "bundle"
  bidiDir := g.bidiDir
  policy := if g.value? "overrides" = some "first" then .keepFirst else .keepLast
  package := g.value? "package"
  declaresNamespaces := true
  outputDirectory := g.value? "output"

/-- A unit as it is written to the output. -/
def unitText (unit : OutputUnit) : String :=
  "// ---- " ++ unit.fileName ++ " ----\n" ++ unit.code

section

variable {m : Type → Type} [Monad m] (files : FileAccess m)

def dump (input : String) : m ProgramResult := do
  match ← loadFile files input with
  | .error _ => return .failure ("failed to load " ++ input)
  | .ok t => return .success (t.dump Tree.root)

def compile (o : CompileOptions) : m ProgramResult := do
  match ← o.compile files .full with
  | .error _ => return .failure ("compilation of " ++ o.input ++ " failed")
  | .ok units =>
    match o.outputDirectory with
    | none => return .success (String.join (units.map unitText))
    | some _ =>
      match ← o.writeOutput files units with
      | .error e => return .failure e.message
      | .ok _ => return .success ""

def run (arguments : List String) : m ProgramResult := do
  match rules.read arguments with
  | .error stop => return .ofStop version stop
  | .ok (input, given) =>
    if given.has "dump-tree" then dump files input else compile files (options input given)

end

end TemplateLang.CompilerCommand
