import TemplateLang.Tree.Kind

/-! Template trees. The nodes live in an arena and refer to each other by handle: each
knows its parent and its children, and every node has a serial number that no other
node gets. A node taken out of the tree stays in the arena and can be put back. Moving
a node is one operation, insertion, that refuses to give a node to itself, to one of
its descendants or to a kind that owns nothing. -/

namespace TemplateLang

/-- A handle of a node, meaningful for the tree that gave it. -/
structure NodeRef where
  index : Nat
deriving DecidableEq

structure Node where
  serial : Nat
  kind : NodeKind
  parent : Option NodeRef
  children : List NodeRef
deriving DecidableEq

/-! ### Refusals -/

inductive TreeFault where
  | childless (label : String)
  | rootAsChild
  | cycle (parent : Nat)
  | indexOutOfRange (index count : Nat)
  | noParent
  | replacedByAncestor (node : Nat)
  | missingFromParent
  | noBranch
deriving DecidableEq

/-- An operation on a tree that was refused, with the serial number of the node at fault. -/
structure TreeError where
  node : Nat
  fault : TreeFault
deriving DecidableEq

/-- The text by which a node is named. -/
def nodeName (serial : Nat) : String := "n" ++ toString serial

namespace TreeFault

def message : TreeFault → String
  | .childless label => label ++ " nodes cannot have children"
  | .rootAsChild => "the file-set root cannot become a child"
  | .cycle parent => "appending to " ++ nodeName parent ++ " would create a cycle"
  | .indexOutOfRange index count =>
    "insert index " ++ toString index ++ " out of range for " ++ toString count ++ " children"
  | .noParent => "cannot replace a node that has no parent"
  | .replacedByAncestor node =>
    "cannot replace " ++ nodeName node ++ " with itself or an ancestor"
  | .missingFromParent => "node missing from its parent"
  | .noBranch => "an if needs at least one condition branch"

end TreeFault

def TreeError.message (e : TreeError) : String :=
  "invalid tree operation on node " ++ nodeName e.node ++ ": " ++ e.fault.message

/-! ### Trees -/

/-- The arena, with the serial number that its next node gets. -/
structure Tree where
  nodes : Array Node
  fresh : Nat
deriving DecidableEq

namespace Tree

/-- The root is the first node of every tree. -/
def root : NodeRef := ⟨0⟩

/-- What a handle of no node stands for. -/
def absent : Node := ⟨0, .text "", none, []⟩

def node (t : Tree) (n : NodeRef) : Node := t.nodes[n.index]?.getD absent

def serial (t : Tree) (n : NodeRef) : Nat := (t.node n).serial

def kind (t : Tree) (n : NodeRef) : NodeKind := (t.node n).kind

def parent (t : Tree) (n : NodeRef) : Option NodeRef := (t.node n).parent

def children (t : Tree) (n : NodeRef) : List NodeRef := (t.node n).children

/-- The children of the root. -/
def files (t : Tree) : List NodeRef := t.children root

def isEmpty (t : Tree) : Bool := t.files.isEmpty

def modify (t : Tree) (n : NodeRef) (f : Node → Node) : Tree :=
  { t with nodes := t.nodes.modify n.index f }

def setKind (t : Tree) (n : NodeRef) (kind : NodeKind) : Tree :=
  t.modify n fun node => { node with kind }

def setParent (t : Tree) (n : NodeRef) (parent : Option NodeRef) : Tree :=
  t.modify n fun node => { node with parent }

def setChildren (t : Tree) (n : NodeRef) (children : List NodeRef) : Tree :=
  t.modify n fun node => { node with children }

/-- Makes a node that belongs to no other yet. -/
def create (t : Tree) (kind : NodeKind) : NodeRef × Tree :=
  (⟨t.nodes.size⟩, ⟨t.nodes.push ⟨t.fresh, kind, none, []⟩, t.fresh + 1⟩)

/-- A tree of the root alone, with serial numbers from `fresh` on. -/
def new (fresh : Nat) : Tree := ((⟨#[], fresh⟩ : Tree).create .fileSet).2

/-! ### Ancestors -/

/-- The nodes from `n` up towards its root, `steps` of them beyond `n` at most. -/
def pathWithin (t : Tree) : Nat → NodeRef → List NodeRef
  | 0, n => [n]
  | steps + 1, n =>
    match t.parent n with
    | none => [n]
    | some p => n :: pathWithin t steps p

/-- The nodes from `n` up to its root. No path has more nodes than the arena. -/
def path (t : Tree) (n : NodeRef) : List NodeRef := t.pathWithin t.nodes.size n

/-- Whether `candidate` is `n` or lies on the way from `n` to its root. -/
def isAncestorOrSelf (t : Tree) (candidate n : NodeRef) : Bool := (t.path n).contains candidate

/-- The closest node above `n` whose kind `p` accepts. -/
def nearestAncestor (t : Tree) (n : NodeRef) (p : NodeKind → Bool) : Option NodeRef :=
  (t.path n).tail.find? fun a => p (t.kind a)

/-- The path of the file that `n` is in. -/
def filePathOf (t : Tree) (n : NodeRef) : Option String :=
  (t.path n).tail.findSome? fun a =>
    match t.kind a with
    | .file path _ => some path
    | _ => none

/-! ### Moving nodes -/

/-- Takes `n` from its parent, and tells where among the children it was. -/
def detach (t : Tree) (n : NodeRef) : Option Nat × Tree :=
  match t.parent n with
  | none => (none, t)
  | some p =>
    let t := t.setParent n none
    match (t.children p).idxOf? n with
    | none => (none, t)
    | some index => (some index, t.setChildren p ((t.children p).eraseIdx index))

/-- How many children `parent` has besides `child`. -/
def otherChildren (t : Tree) (parent child : NodeRef) : Nat :=
  let count := (t.children parent).length
  if t.parent child = some parent then count - 1 else count

/-- Moves `child` so that it comes to stand at `index` among the children of `parent`. -/
def insertChild (t : Tree) (parent : NodeRef) (index : Nat) (child : NodeRef) :
    Except TreeError Tree :=
  if !(t.kind parent).isContainer then
    .error ⟨t.serial parent, .childless (t.kind parent).label⟩
  else if child = root then .error ⟨t.serial child, .rootAsChild⟩
  else if t.isAncestorOrSelf child parent then
    .error ⟨t.serial child, .cycle (t.serial parent)⟩
  else if t.otherChildren parent child < index then
    .error ⟨t.serial parent, .indexOutOfRange index (t.otherChildren parent child)⟩
  else
    let t := (t.detach child).2
    let t := t.setChildren parent ((t.children parent).insertIdx index child)
    .ok (t.setParent child (some parent))

/-- Moves `child` to the end of the children of `parent`. -/
def appendChild (t : Tree) (parent child : NodeRef) : Except TreeError Tree :=
  t.insertChild parent (t.otherChildren parent child) child

/-- Makes a node and appends it to `parent`. A node that `parent` refuses stays in the arena. -/
def add (t : Tree) (parent : NodeRef) (kind : NodeKind) : Except TreeError NodeRef × Tree :=
  let (n, t) := t.create kind
  match t.appendChild parent n with
  | .ok t => (.ok n, t)
  | .error e => (.error e, t)

/-- Inserts nodes next to each other, the first at `index`, up to one that is refused. -/
def insertAll (t : Tree) (parent : NodeRef) (index : Nat) :
    List NodeRef → Except TreeError Unit × Tree
  | [] => (.ok (), t)
  | child :: rest =>
    match t.insertChild parent index child with
    | .ok t => insertAll t parent (index + 1) rest
    | .error e => (.error e, t)

/-- Puts `replacements` in the place of `n`, which is left without a parent. -/
def replaceWith (t : Tree) (n : NodeRef) (replacements : List NodeRef) :
    Except TreeError Unit × Tree :=
  match t.parent n with
  | none => (.error ⟨t.serial n, .noParent⟩, t)
  | some parent =>
    match replacements.find? fun r => r = n || t.isAncestorOrSelf r parent with
    | some r => (.error ⟨t.serial r, .replacedByAncestor (t.serial n)⟩, t)
    | none =>
      let t := replacements.foldl (fun t r => (t.detach r).2) t
      match t.detach n with
      | (none, t) => (.error ⟨t.serial n, .missingFromParent⟩, t)
      | (some index, t) => t.insertAll parent index replacements

end Tree

end TemplateLang
