import TemplateLang.Directive.Check
import TemplateLang.Target.Writer

/-! What generated source looks like in one language. Expressions, statements and the lines
around templates and files are written by the dialect; what is written where is the same
for all. -/

namespace TemplateLang

structure Dialect where
  backend : Backend
  /-- A reference to data. -/
  data : List String → Fragment
  /-- A string literal. -/
  literal : String → Fragment
  /-- The negation of a value. -/
  negation : Fragment → Fragment
  /-- The comparison of two values. -/
  equality : Fragment → Fragment → Fragment
  /-- A condition as the test of a branch. -/
  test : Fragment → Fragment
  /-- A printed value before its directives. -/
  printed : Fragment → Fragment
  directive? : Directive → Option (Fragment → List Fragment → Fragment)
  /-- The statement that appends a value to the output. -/
  append : Fragment → String
  /-- The statement that calls a template, in a file of the given namespace. -/
  call : (ns callee : String) → (passesData : Bool) → String
  /-- The line that opens a template. -/
  templateHead : (name : String) → String
  /-- Lines before and after the body of a template. -/
  prologue : List String
  epilogue : List String
  templateEnd : String
  /-- Writes what comes before the templates of a file, below its first lines. -/
  openFile : (ns : String) → CodeWriter → CodeWriter
  closeFile : CodeWriter → CodeWriter
  /-- The name of the file that is generated. -/
  fileName : (path ns : String) → String

namespace Dialect

/-- An expression in the dialect. Helpers that depend on the direction have no form there. -/
def expr (d : Dialect) (node : Nat) : Expr → Except CompileError Fragment
  | .data path => .ok (d.data path)
  | .str s => .ok (d.literal s)
  | .number n => .ok (.atom n.sourceText)
  | .bool b => .ok (.atom (Expr.boolText b))
  | .not e => return d.negation (← expr d node e)
  | .eq left right => do
    let left ← expr d node left
    let right ← expr d node right
    return d.equality left right
  | .bidi f => .error (.codeGeneration node (.unfolded (Expr.bidi f).source))

/-- Applies one directive of a print to the value so far. -/
def applyCall (d : Dialect) (registry : Registry) (node : Nat) (site : String)
    (value : Fragment) (call : DirectiveCall) : Except CompileError Fragment := do
  let directive ← (registry.resolve call).mapError (CompileError.atSite site)
  let args ← call.args.mapM (d.expr node)
  match d.directive? directive with
  | some apply => return apply value args
  | none => .error (.unsupportedDirective call.name d.backend node)

/-- The value of a print after its directives, in their order. -/
def printValue (d : Dialect) (registry : Registry) (node : Nat) (e : Expr)
    (directives : List DirectiveCall) : Except CompileError Fragment := do
  let value ← d.expr node e
  directives.foldlM (d.applyCall registry node (printSource e directives)) (d.printed value)

end Dialect

end TemplateLang
