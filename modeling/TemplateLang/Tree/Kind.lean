import TemplateLang.Expr.Basic

/-! What a node of a template tree is, with the literal data it carries. Which kinds may
own other nodes depends on the kind alone. -/

namespace TemplateLang

inductive NodeKind where
  /-- The root, whose children are the files. -/
  | fileSet
  | file (path ns : String)
  | template (name : String) (isOverride autoescape : Bool)
  /-- Text that goes to the output as it is. -/
  | text (content : String)
  /-- The place where a value is printed. -/
  | print (expr : Expr) (directives : List DirectiveCall) (escape : Option EscapeContext)
  /-- A conditional block of branches. -/
  | cond
  /-- The first branch or a further one, taken when its condition holds. -/
  | branch (condition : Expr)
  /-- The branch taken when no other was. -/
  | otherwise
  /-- A message that a bundle may localize, whose children are its content in the source language. -/
  | msg (key desc : String)
  /-- A call of another template, which may get all the data of its caller. -/
  | call (callee : String) (passesData : Bool)
deriving DecidableEq

namespace NodeKind

/-- Whether nodes of this kind may own children. -/
def isContainer : NodeKind → Bool
  | .text _ | .print .. | .call .. => false
  | _ => true

def label : NodeKind → String
  | .fileSet => "FileSet"
  | .file .. => "File"
  | .template .. => "Template"
  | .text _ => "RawText"
  | .print .. => "Print"
  | .cond => "If"
  | .branch _ => "IfCond"
  | .otherwise => "IfElse"
  | .msg .. => "Msg"
  | .call .. => "Call"

end NodeKind

/-- Partial names are relative to the namespace around them. -/
def isPartialName (name : String) : Bool := name.toList.head? = some '.'

end TemplateLang
