import TemplateLang.File.Error
import TemplateLang.Tree.Description
import TemplateLang.Tree.View

/-! Building a tree from the description of a file set. Files, templates and items become
nodes in order of the description, a conditional block owning its branches. The one
thing that a description can get wrong is a conditional block without a branch. -/

namespace TemplateLang

namespace Tree

/-- Makes a node below `parent`. -/
def added (t : Tree) (parent : NodeRef) (kind : NodeKind) : Except TreeError (NodeRef × Tree) :=
  match t.add parent kind with
  | (.ok n, t) => .ok (n, t)
  | (.error e, _) => .error e

/-- Makes a node below `parent` and goes on without it. -/
def addedLeaf (t : Tree) (parent : NodeRef) (kind : NodeKind) : Except TreeError Tree :=
  (t.added parent kind).map (·.2)

mutual

def addItem (t : Tree) (parent : NodeRef) : Item → Except TreeError Tree
  | .text content => t.addedLeaf parent (.text content)
  | .print expr directives escape => t.addedLeaf parent (.print expr directives escape)
  | .cond branches otherwise => do
    if branches.isEmpty then .error ⟨t.serial parent, .noBranch⟩
    else
      let (n, t) ← t.added parent .cond
      let t ← addBranches t n branches
      match otherwise with
      | none => .ok t
      | some body =>
        let (o, t) ← t.added n .otherwise
        addItems t o body
  | .msg key desc body => do
    let (n, t) ← t.added parent (.msg key desc)
    addItems t n body
  | .call callee passesData => t.addedLeaf parent (.call callee passesData)

def addItems (t : Tree) (parent : NodeRef) : List Item → Except TreeError Tree
  | [] => .ok t
  | item :: rest => do addItems (← addItem t parent item) parent rest

def addBranch (t : Tree) (parent : NodeRef) : Branch → Except TreeError Tree
  | .mk condition body => do
    let (n, t) ← t.added parent (.branch condition)
    addItems t n body

def addBranches (t : Tree) (parent : NodeRef) : List Branch → Except TreeError Tree
  | [] => .ok t
  | b :: rest => do addBranches (← addBranch t parent b) parent rest

end

def addTemplate (t : Tree) (parent : NodeRef) (d : TemplateDescription) :
    Except TreeError Tree := do
  let (n, t) ← t.added parent (.template d.name d.isOverride d.autoescape)
  t.addItems n d.body

def addFile (t : Tree) (d : FileDescription) : Except TreeError Tree := do
  let (n, t) ← t.added root (.file d.path d.ns)
  d.templates.foldlM (fun t template => t.addTemplate n template) t

/-- The tree of a description, with serial numbers from `fresh` on. -/
def ofDescription (fresh : Nat) (d : FileSetDescription) : Except TreeError Tree :=
  d.files.foldlM addFile (new fresh)

end Tree

/-- Why a description could not be loaded. -/
inductive LoadError where
  | malformed
  | refused (e : TreeError)
  | unreadable (e : FileError)
deriving DecidableEq

def LoadError.message : LoadError → String
  | .malformed => "malformed tree description"
  | .refused e => e.message
  | .unreadable e => "I/O error: " ++ e.message

/-- Loads a tree from the JSON text of a description. -/
def Tree.load (fresh : Nat) (text : String) : Except LoadError Tree :=
  match FileSetDescription.ofText? text with
  | none => .error .malformed
  | some d => (Tree.ofDescription fresh d).mapError .refused

end TemplateLang
