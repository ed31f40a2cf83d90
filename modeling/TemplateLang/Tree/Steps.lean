import TemplateLang.Tree.Basic

/-! Moving a node step by step, on one tree that changes on the way. A step may refuse, and then
what was changed before it stays changed. A step that there is no way to take, as to count below
zero or to insert beyond the end of a list, leaves no result and no tree. -/

namespace TemplateLang

/-- Steps on a tree that may refuse, or get stuck. -/
abbrev Steps (α : Type) := ExceptT TreeError (StateT Tree Option) α

namespace Steps

open TemplateLang.Tree (root)

/-- What steps come to and the tree that they leave. -/
def result {α : Type} (s : Steps α) (t : Tree) : Option (Except TreeError α × Tree) := s.run.run t

def stuck {α : Type} : Steps α := fun _ => none

def predecessor : Nat → Steps Nat
  | 0 => stuck
  | k + 1 => pure k

/-- The last place at which `child` can come to stand below `parent`. -/
def lastPlace (parent child : NodeRef) : Steps Nat := do
  let t ← get
  if t.parent child = some parent then predecessor (t.children parent).length
  else pure (t.children parent).length

/-- Writes `child` into the list of children, if the list goes as far. -/
def putChild (parent : NodeRef) (index : Nat) (child : NodeRef) : Steps Unit := do
  let t ← get
  if (t.children parent).length < index then stuck
  else set (t.setChildren parent ((t.children parent).insertIdx index child))

def insertChild (parent : NodeRef) (index : Nat) (child : NodeRef) : Steps Unit := do
  let t ← get
  if !(t.kind parent).isContainer then
    throw ⟨t.serial parent, .childless (t.kind parent).label⟩
  else if child = root then throw ⟨t.serial child, .rootAsChild⟩
  else if t.isAncestorOrSelf child parent then
    throw ⟨t.serial child, .cycle (t.serial parent)⟩
  else
    let last ← lastPlace parent child
    if last < index then throw ⟨t.serial parent, .indexOutOfRange index last⟩
    else
      modify fun t => (t.detach child).2
      putChild parent index child
      modify fun t => t.setParent child (some parent)

def appendChild (parent child : NodeRef) : Steps Unit := do
  insertChild parent (← lastPlace parent child) child

end Steps

end TemplateLang
