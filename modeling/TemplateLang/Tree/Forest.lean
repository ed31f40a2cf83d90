import TemplateLang.Tree.View

/-! Trees that are made and changed side by side. All draw the serial numbers of their nodes
from one count, which goes on whether an operation succeeds or not. An operation names
a tree by its position, in order of making, and nodes by handles of that tree. -/

namespace TemplateLang

namespace Tree

/-- An operation on the nodes of a tree. -/
inductive Operation where
  | create (kind : NodeKind)
  | add (parent : NodeRef) (kind : NodeKind)
  | append (parent child : NodeRef)
  | insert (parent : NodeRef) (index : Nat) (child : NodeRef)
  | detach (n : NodeRef)
  | replace (n : NodeRef) (replacements : List NodeRef)
  | setKind (n : NodeRef) (kind : NodeKind)
deriving DecidableEq

namespace Operation

/-- The nodes that an operation names. -/
def handles : Operation → List NodeRef
  | .create _ => []
  | .add parent _ => [parent]
  | .append parent child => [parent, child]
  | .insert parent _ child => [parent, child]
  | .detach n => [n]
  | .replace n replacements => n :: replacements
  | .setKind n _ => [n]

/-- The tree that an operation leaves, whether it succeeds or is refused. -/
def run (t : Tree) : Operation → Tree
  | .create kind => (t.create kind).2
  | .add parent kind => (t.add parent kind).2
  | .append parent child => (t.appendChild parent child).toOption.getD t
  | .insert parent index child => (t.insertChild parent index child).toOption.getD t
  | .detach n => (t.detach n).2
  | .replace n replacements => (t.replaceWith n replacements).2
  | .setKind n kind => t.setKind n kind

end Operation

/-- Whether all these are handles of nodes of the arena. -/
def hasAll (t : Tree) (ns : List NodeRef) : Bool := ns.all fun n => n.index < t.nodes.size

end Tree

/-- Trees in order of making, with the serial number that the next node of any gets. -/
structure Forest where
  trees : List Tree
  fresh : Nat
deriving DecidableEq

namespace Forest

inductive Operation where
  /-- Makes a tree of the root alone. -/
  | new
  /-- Makes a copy of a tree. -/
  | copy (tree : Nat)
  | change (tree : Nat) (operation : Tree.Operation)
deriving DecidableEq

def empty : Forest := ⟨[], 0⟩

/-- One operation. There is no result for a tree or a node that does not exist. -/
def step (f : Forest) : Operation → Option Forest
  | .new => some ⟨f.trees ++ [Tree.new f.fresh], f.fresh + 1⟩
  | .copy tree => do
    let copy := ((← f.trees[tree]?).continuingAt f.fresh).deepCopy
    return ⟨f.trees ++ [copy], copy.fresh⟩
  | .change tree operation => do
    let t ← f.trees[tree]?
    if t.hasAll operation.handles then
      let t := operation.run (t.continuingAt f.fresh)
      return ⟨f.trees.set tree t, t.fresh⟩
    else none

def run (operations : List Operation) : Option Forest := operations.foldlM step empty

end Forest

end TemplateLang
