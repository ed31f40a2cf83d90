import TemplateLang.Error
import TemplateLang.Message.Placeholder

/-! Putting localized messages in their places. A message that the bundle has no parts for is
replaced by its own content. Parts become text nodes and the prints that their
placeholders refer to; a print that is used again is copied. Messages inside a message
go with it, and messages that come with its content stay. -/

namespace TemplateLang

namespace View

mutual

/-- The messages that are in no other message, in order of the source. -/
def outerMessages : View → List NodeRef
  | .node ref _ kind children =>
    match kind with
    | .msg _ _ => [ref]
    | _ => listOuterMessages children

def listOuterMessages : List View → List NodeRef
  | [] => []
  | v :: rest => outerMessages v ++ listOuterMessages rest

end

end View

namespace Tree

/-- The nodes that the parts of a message become, after the nodes of the parts before
them. New nodes are made even where a later part fails. -/
def partNodes (t : Tree) (msg : View) (key : String) (before : List NodeRef) :
    List MessagePart → Except CompileError (List NodeRef) × Tree
  | [] => (.ok before, t)
  | .text content :: rest =>
    let (n, t) := t.create (.text content)
    partNodes t msg key (before ++ [n]) rest
  | .placeholder name :: rest =>
    match msg.placeholder? name with
    | none => (.error (.codeGeneration msg.serial (.unknownPlaceholder key name)), t)
    | some print =>
      if before.contains print.ref then
        let (n, t) := t.create print.kind
        partNodes t msg key (before ++ [n]) rest
      else partNodes t msg key (before ++ [print.ref]) rest

/-- The nodes that take the place of a message. -/
def messageNodes (t : Tree) (bundle : Option Bundle) (msg : View) (key : String) :
    Except CompileError (List NodeRef) × Tree :=
  match bundle.bind (·.get? key) with
  | some parts => t.partNodes msg key [] parts
  | none => (.ok (t.children msg.ref), t)

/-- Replaces the message `n`. -/
def insertMessage (t : Tree) (bundle : Option Bundle) (n : NodeRef) :
    Except CompileError Unit × Tree :=
  match t.kind n with
  | .msg key _ =>
    match t.messageNodes bundle (t.view n) key with
    | (.error e, t) => (.error e, t)
    | (.ok nodes, t) =>
      let (result, t) := t.replaceWith n nodes
      (result.mapError .tree, t)
  | _ => (.ok (), t)

/-- Replaces messages one after the other, up to one that fails. -/
def insertEach (t : Tree) (bundle : Option Bundle) :
    List NodeRef → Except CompileError Unit × Tree
  | [] => (.ok (), t)
  | n :: rest =>
    match t.insertMessage bundle n with
    | (.ok _, t) => insertEach t bundle rest
    | (.error e, t) => (.error e, t)

/-- Replaces every message that is in no other. -/
def insertMessages (t : Tree) (bundle : Option Bundle) : Except CompileError Unit × Tree :=
  t.insertEach bundle (t.view root).outerMessages

end Tree

end TemplateLang
