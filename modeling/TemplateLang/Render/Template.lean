import TemplateLang.Directive.Check
import TemplateLang.Message.Placeholder
import TemplateLang.Name.TemplateSet
import TemplateLang.Render.Eval

/-! Rendering the bodies of templates. A node writes text: a print its value after its
directives, a conditional block the first branch whose condition holds, a message its
parts in the bundle or else its own content, a call the template it names. Calls nest
at most 64 deep. -/

namespace TemplateLang

/-- What a rendering reads from. -/
structure RenderContext where
  tree : Tree
  templates : TemplateSet
  registry : Registry
  scope : Scope

/-- Most templates that may be open at once. -/
def callDepthLimit : Nat := 64

namespace RenderContext

variable (c : RenderContext)

def evaluate (d : Data) (e : Expr) : Except RenderError Value :=
  (e.eval c.scope d).mapError .compile

/-! ### Prints -/

/-- Applies one directive of a print to the text so far. -/
def applyCall (serial : Nat) (site : String) (d : Data) (text : String) (call : DirectiveCall) :
    Except RenderError String := do
  let directive ← ((c.registry.resolve call).mapError (CompileError.atSite site)).mapError .compile
  match directive.interpreted? with
  | none => .error (.compile (.unsupportedDirective call.name .interpreter serial))
  | some apply =>
    let args ← call.args.mapM fun e => do return (← c.evaluate d e).toJson
    (apply text args).mapError fun e => .runtime serial (.directive e)

/-- The text of a print, whose value must not be null. -/
def renderPrint (serial : Nat) (d : Data) (e : Expr) (directives : List DirectiveCall) :
    Except RenderError String := do
  let site := printSource e directives
  let value ← c.evaluate d e
  if value.isNull then .error (.runtime serial (.nullPrint e.source site))
  else directives.foldlM (c.applyCall serial site d) value.text

def misplaced (serial : Nat) (kind : NodeKind) : RenderError :=
  .runtime serial (.misplaced kind.label)

/-- The text of a print node. -/
def renderPrintNode (d : Data) (v : View) : Except RenderError String :=
  match v.kind with
  | .print e directives _ => c.renderPrint v.serial d e directives
  | kind => .error (misplaced v.serial kind)

/-- The text of the parts that a bundle has for a message. -/
def renderParts (d : Data) (msg : View) (key : String) :
    List MessagePart → Except RenderError String
  | [] => .ok ""
  | .text content :: rest => return content ++ (← renderParts d msg key rest)
  | .placeholder name :: rest =>
    match msg.placeholder? name with
    | none => .error (.runtime msg.serial (.unknownPlaceholder key name))
    | some print => do
      let text ← c.renderPrintNode d print
      return text ++ (← renderParts d msg key rest)

/-! ### Bodies -/

section

variable (callTemplate : View → Data → Except RenderError String)

/-- The text of a call of a template. -/
def renderCall (d : Data) (callee : String) (passesData : Bool) : Except RenderError String :=
  match c.templates.get? callee with
  | none => .error (.unknownTemplate callee)
  | some n => callTemplate (c.tree.view n) (if passesData then d else .empty)

mutual

def renderNode (d : Data) : View → Except RenderError String
  | .node ref serial kind children =>
    match kind with
    | .text content => .ok content
    | .print e directives _ => c.renderPrint serial d e directives
    | .cond => renderBranches d true children
    | .msg key desc => do
      let bundle ← c.scope.msgBundle.mapError .compile
      match bundle.bind (·.get? key) with
      | some parts => c.renderParts d (.node ref serial (.msg key desc) children) key parts
      | none => renderNodes d children
    | .call callee passesData => c.renderCall callTemplate d callee passesData
    | kind => .error (misplaced serial kind)

def renderNodes (d : Data) : List View → Except RenderError String
  | [] => .ok ""
  | v :: rest => do
    let text ← renderNode d v
    return text ++ (← renderNodes d rest)

/-- The text of the first branch that is taken. -/
def renderBranches (d : Data) (first : Bool) : List View → Except RenderError String
  | [] => .ok ""
  | .node _ serial kind children :: rest =>
    match kind with
    | .branch condition => do
      if (← c.evaluate d condition).truth then renderNodes d children
      else renderBranches d false rest
    | .otherwise => if first then .error (misplaced serial kind) else renderNodes d children
    | kind => .error (misplaced serial kind)

end

end

/-- The text of a template, inside which at most `budget` templates may be open at once, itself
included. -/
def renderTemplate : Nat → View → Data → Except RenderError String
  | 0, v, _ => .error (.runtime v.serial (.callDepth callDepthLimit))
  | budget + 1, v, d => c.renderNodes (renderTemplate budget) d v.children

end RenderContext

end TemplateLang
