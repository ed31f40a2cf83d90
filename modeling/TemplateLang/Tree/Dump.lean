import TemplateLang.Tree.View
import TemplateLang.Text.Quoted

/-! The dump of a tree: a line for each node, indented by depth, that ends in the name of
the node. -/

namespace TemplateLang

namespace NodeKind

def directiveTexts (directives : List DirectiveCall) : String :=
  String.join (directives.map fun call => " " ++ call.source)

def escapeText : Option EscapeContext → String
  | none => ""
  | some context => " (escape: " ++ context.label ++ ")"

def flagText (isOverride autoescape : Bool) : String :=
  let flags := (if isOverride then ["override"] else []) ++
    (if autoescape then [] else ["no-autoescape"])
  if flags.isEmpty then "" else " (" ++ Text.join ", " flags ++ ")"

/-- A node's line without its indentation and name. -/
def dumpText : NodeKind → String
  | .fileSet => "FileSet"
  | .file path ns => "File: " ++ path ++ " (namespace " ++ ns ++ ")"
  | .template name isOverride autoescape =>
    "Template: " ++ name ++ flagText isOverride autoescape
  | .text content => "RawText: " ++ Text.quoted content
  | .print expr directives escape =>
    "Print: " ++ expr.source ++ directiveTexts directives ++ escapeText escape
  | .cond => "If"
  | .branch condition => "IfCond: " ++ condition.source
  | .otherwise => "IfElse"
  | .msg key desc => "Msg: " ++ key ++ " " ++ Text.quoted desc
  | .call callee passesData => "Call: " ++ callee ++ (if passesData then " data=all" else "")

end NodeKind

namespace View

def indentation (depth : Nat) : String := String.join (List.replicate depth "  ")

mutual

def dumpLines (depth : Nat) : View → List String
  | .node _ serial kind children =>
    (indentation depth ++ kind.dumpText ++ " [" ++ nodeName serial ++ "]") ::
      listDumpLines (depth + 1) children

def listDumpLines (depth : Nat) : List View → List String
  | [] => []
  | v :: rest => dumpLines depth v ++ listDumpLines depth rest

end

def dump (v : View) : String := String.join ((v.dumpLines 0).map (· ++ "\n"))

end View

def Tree.dump (t : Tree) (n : NodeRef) : String := (t.view n).dump

end TemplateLang
