import TemplateLang.Name.TemplateSet
import TemplateLang.Target.Dialect

/-! Emission of code. The body of a template is emitted node by node in order of its source:
a statement for each print, call and text that is not empty, and a block for each
condition. Each file gives one unit with the templates of it that are in effect. -/

namespace TemplateLang

/-- The code generated for one file. -/
structure OutputUnit where
  sourcePath : String
  fileName : String
  code : String
deriving DecidableEq

namespace Dialect

/-- The error for a node that cannot stand where it does. -/
def misplaced (serial : Nat) (kind : NodeKind) : CompileError :=
  .codeGeneration serial (.misplaced kind.label)

/-- Opens a branch of a block, closing the one before it. -/
def openBranch (first : Bool) (test : String) (w : CodeWriter) : CodeWriter :=
  if first then (w.line ("if (" ++ test ++ ") \x7b")).indent
  else (w.dedent.line ("\x7d else if (" ++ test ++ ") \x7b")).indent

def openOtherwise (w : CodeWriter) : CodeWriter := (w.dedent.line "\x7d else \x7b").indent

section

variable (d : Dialect) (registry : Registry) (ns : String)

mutual

def emitNode (w : CodeWriter) : View → Except CompileError CodeWriter
  | .node _ serial kind children =>
    match kind with
    | .text content => .ok (if content = "" then w else w.line (d.append (d.literal content)))
    | .print e directives _ => do
      return w.line (d.append (← d.printValue registry serial e directives))
    | .cond => do
      let w ← emitBranches true w children
      return if children.isEmpty then w else w.dedent.line "\x7d"
    | .msg _ _ => emitNodes w children
    | .call callee passesData => .ok (w.line (d.call ns callee passesData))
    | kind => .error (misplaced serial kind)

def emitNodes (w : CodeWriter) : List View → Except CompileError CodeWriter
  | [] => .ok w
  | v :: rest => do emitNodes (← emitNode w v) rest

/-- Emits the branches of a block, which the first of them opens. -/
def emitBranches (first : Bool) (w : CodeWriter) : List View → Except CompileError CodeWriter
  | [] => .ok w
  | .node _ serial kind children :: rest =>
    match kind with
    | .branch condition => do
      let test ← d.expr serial condition
      let w ← emitNodes (openBranch first (d.test test).text w) children
      emitBranches false w rest
    | .otherwise =>
      if first then .error (misplaced serial kind)
      else do
        let w ← emitNodes (openOtherwise w) children
        emitBranches false w rest
    | kind => .error (misplaced serial kind)

end

/-- Emits a template that is in effect. -/
def emitTemplate (name : String) (body : List View) (w : CodeWriter) :
    Except CompileError CodeWriter := do
  let w := (w.blank.line (d.templateHead name)).indent
  let w ← d.emitNodes registry ns (d.prologue.foldl CodeWriter.line w) body
  return (d.epilogue.foldl CodeWriter.line w).dedent.line d.templateEnd

/-- Emits the templates of a file that are in effect. -/
def emitTemplates (inEffect : View → Bool) (w : CodeWriter) :
    List View → Except CompileError CodeWriter
  | [] => .ok w
  | v :: rest =>
    match v.kind with
    | .template name _ _ => do
      let w ← if inEffect v then d.emitTemplate registry ns name v.children w else .ok w
      emitTemplates inEffect w rest
    | kind => .error (.codeGeneration v.serial (.expectedTemplate kind.label))

end

/-- The first lines of every file. -/
def header (path : String) : CodeWriter :=
  ((CodeWriter.empty.line ("// This file was automatically generated from " ++ path ++ ".")).line
    "// Please don't edit this file by hand.").blank

/-- Emits one file. -/
def emitFile (d : Dialect) (registry : Registry) (inEffect : View → Bool) (file : View) :
    Except CompileError OutputUnit :=
  match file.kind with
  | .file path ns => do
    let w ← d.emitTemplates registry ns inEffect (d.openFile ns (header path)) file.children
    return ⟨path, d.fileName path ns, (d.closeFile w).code⟩
  | kind => .error (.codeGeneration file.serial (.expectedFile kind.label))

end Dialect

/-- Emits the units of all files, in order. -/
def Tree.emit (t : Tree) (d : Dialect) (registry : Registry) (templates : TemplateSet) :
    Except CompileError (List OutputUnit) :=
  t.files.mapM fun file =>
    d.emitFile registry (fun v => templates.isInEffect t v.ref) (t.view file)

end TemplateLang
