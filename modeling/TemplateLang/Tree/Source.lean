import TemplateLang.Tree.View

/-! The template source of a tree. Each node writes its own tags around the source of its
children; the first branch of a conditional block writes the tag of the block. -/

namespace TemplateLang

/-- What stands for `c` in the text between tags. -/
def bodyChar : Char → List Char
  | '\x7b' => ['\x7b', 'l', 'b', '\x7d']
  | '\x7d' => ['\x7b', 'r', 'b', '\x7d']
  | c => [c]

/-- A tag around `content`. -/
def tag (content : String) : String := "\x7b" ++ content ++ "\x7d"

/-- The source of a print. -/
def printSource (expr : Expr) (directives : List DirectiveCall) : String :=
  tag (expr.source ++ String.join (directives.map fun call => " " ++ call.source))

namespace View

mutual

/-- The source of a node, which is the first of its siblings or not. -/
def sourceAt (first : Bool) : View → String
  | .node _ _ kind children =>
    match kind with
    | .fileSet => childrenSource true children
    | .file _ ns => tag ("namespace " ++ ns) ++ "\n\n" ++ childrenSource true children
    | .template name isOverride autoescape =>
      tag ("template " ++ name ++ (if isOverride then " override=\"true\"" else "")
        ++ (if autoescape then "" else " autoescape=\"false\""))
        ++ childrenSource true children ++ tag "/template" ++ "\n"
    | .text content => String.ofList (content.toList.flatMap bodyChar)
    | .print expr directives _ => printSource expr directives
    | .cond => childrenSource true children ++ tag "/if"
    | .branch condition =>
      tag ((if first then "if " else "elseif ") ++ condition.source)
        ++ childrenSource true children
    | .otherwise => tag "else" ++ childrenSource true children
    | .msg key desc =>
      tag ("msg key=\"" ++ key ++ "\" desc=\"" ++ desc ++ "\"")
        ++ childrenSource true children ++ tag "/msg"
    | .call callee passesData =>
      tag ("call " ++ callee ++ (if passesData then " data=\"all\"" else "") ++ " /")

/-- The source of nodes next to each other, the first of which is a first sibling or not. -/
def childrenSource (first : Bool) : List View → String
  | [] => ""
  | v :: rest => sourceAt first v ++ childrenSource false rest

end

end View

namespace Tree

/-- Whether `n` has no parent or comes first among its siblings. -/
def isFirstSibling (t : Tree) (n : NodeRef) : Bool :=
  match t.parent n with
  | none => true
  | some p => (t.children p).head? = some n

def source (t : Tree) (n : NodeRef) : String := (t.view n).sourceAt (t.isFirstSibling n)

end Tree

end TemplateLang
