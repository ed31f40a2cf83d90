import TemplateLang.Tree.Basic

/-! A tree as a value. The view of a node holds the node and the views of its children, so
what reads a tree, or changes kinds without moving nodes, is a recursion on views.
Walking a tree in order of its source is the order of the nodes of its view. -/

namespace TemplateLang

inductive View where
  | node (ref : NodeRef) (serial : Nat) (kind : NodeKind) (children : List View)

namespace View

def ref : View → NodeRef
  | .node ref _ _ _ => ref

def serial : View → Nat
  | .node _ serial _ _ => serial

def kind : View → NodeKind
  | .node _ _ kind _ => kind

def children : View → List View
  | .node _ _ _ children => children

def name (v : View) : String := nodeName v.serial

/-! ### Nodes in order -/

mutual

/-- A node and, where `enters` holds of its kind, all below it, in order of the source. -/
def nodesWhere (enters : NodeKind → Bool) : View → List View
  | .node ref serial kind children =>
    .node ref serial kind children :: if enters kind then listNodesWhere enters children else []

def listNodesWhere (enters : NodeKind → Bool) : List View → List View
  | [] => []
  | v :: rest => nodesWhere enters v ++ listNodesWhere enters rest

end

/-- A node and all below it. -/
def nodes (v : View) : List View := v.nodesWhere fun _ => true

/-! ### Changing kinds -/

section

variable {σ : Type} (enters : NodeKind → Bool) (step : σ → NodeKind → σ × NodeKind)

mutual

/-- Changes the kind of each node in order, carrying a state along, and goes below a node
where `enters` holds of its kind. -/
def mapKinds : σ → View → σ × View
  | s, .node ref serial kind children =>
    let (s, newKind) := step s kind
    if enters kind then
      let (s, newChildren) := mapKindsList s children
      (s, .node ref serial newKind newChildren)
    else (s, .node ref serial newKind children)

def mapKindsList : σ → List View → σ × List View
  | s, [] => (s, [])
  | s, v :: rest =>
    let (s, v) := mapKinds s v
    let (s, rest) := mapKindsList s rest
    (s, v :: rest)

end

end

end View

namespace Tree

/-- The view of `n`, down to `depth` generations below it. -/
def viewWithin (t : Tree) : Nat → NodeRef → View
  | 0, n => .node n (t.serial n) (t.kind n) []
  | depth + 1, n => .node n (t.serial n) (t.kind n) ((t.children n).map (viewWithin t depth))

/-- The view of `n`. No chain of descendants is longer than the arena. -/
def view (t : Tree) (n : NodeRef) : View := t.viewWithin t.nodes.size n

/-- `n` and everything below it, in order of the source. -/
def descendants (t : Tree) (n : NodeRef) : List NodeRef := (t.view n).nodes.map View.ref

/-- The node reachable from the root that has this serial number. -/
def findSerial (t : Tree) (serial : Nat) : Option NodeRef :=
  ((t.view root).nodes.find? fun v => v.serial = serial).map View.ref

/-- How many nodes are reachable from the root. -/
def size (t : Tree) : Nat := (t.descendants root).length

/-- Gives each node of a view the kind it has there. -/
def withKinds (t : Tree) (v : View) : Tree :=
  v.nodes.foldl (fun t w => t.setKind w.ref w.kind) t

/-- Changes kinds from the root on, in order of the source. -/
def mapKinds {σ : Type} (t : Tree) (enters : NodeKind → Bool)
    (step : σ → NodeKind → σ × NodeKind) (s : σ) : σ × Tree :=
  let (s, v) := (t.view root).mapKinds enters step s
  (s, t.withKinds v)

/-! ### Copies -/

/-- Makes a node below `parent` without any check. -/
def addUnchecked (t : Tree) (parent : NodeRef) (kind : NodeKind) : NodeRef × Tree :=
  let (n, t) := t.create kind
  let t := t.setChildren parent (t.children parent ++ [n])
  (n, t.setParent n (some parent))

mutual

/-- Adds a copy of a view below `parent`. -/
def addCopy (t : Tree) (parent : NodeRef) : View → Tree
  | .node _ _ kind children =>
    let (n, t) := t.addUnchecked parent kind
    addCopies t n children

def addCopies (t : Tree) (parent : NodeRef) : List View → Tree
  | [] => t
  | v :: rest => addCopies (addCopy t parent v) parent rest

end

/-- A copy of everything reachable from the root, with serial numbers that `t` has not used. -/
def deepCopy (t : Tree) : Tree := (new t.fresh).addCopies root (t.view root).children

/-- The same tree, whose next node gets the serial number `fresh`. -/
def continuingAt (t : Tree) (fresh : Nat) : Tree := { t with fresh }

end Tree

end TemplateLang
