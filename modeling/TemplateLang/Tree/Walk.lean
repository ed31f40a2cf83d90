import TemplateLang.Tree.View

/-! Walks over the arena as loops. A walk down keeps a stack of nodes that it has still to meet, a
walk up goes from parent to parent, and a copy is made on a walk down. None of them looks out
for nodes that it has met before, so that it goes on for ever among nodes that own each other;
a loop has no result within a number of turns, or of generations, that is too small for it. -/

namespace TemplateLang.Tree

/-- Meets the nodes of a stack, from the top on. The children of a node come on top in its place. -/
def walkWithin (t : Tree) : Nat → List NodeRef → List NodeRef → Option (List NodeRef)
  | _, met, [] => some met
  | 0, _, _ :: _ => none
  | turns + 1, met, n :: stack => t.walkWithin turns (met ++ [n]) (t.children n ++ stack)

/-- The first node that `accepts` holds of, on the way up from a node. -/
def climbWithin (t : Tree) (accepts : NodeRef → Bool) :
    Nat → Option NodeRef → Option (Option NodeRef)
  | _, none => some none
  | 0, some _ => none
  | turns + 1, some n =>
    if accepts n then some (some n) else t.climbWithin accepts turns (t.parent n)

/-- The node that the root reaches and that has this name. -/
def findNamed (t : Tree) (name : String) : Option NodeRef :=
  (t.descendants root).find? fun n => nodeName (t.serial n) = name

/-- Copies what stands below `n` to below `m` in another tree, each node before its children. -/
def copyWithin (t : Tree) : Nat → NodeRef → Tree → NodeRef → Option Tree
  | 0, _, _, _ => none
  | depth + 1, n, into, m =>
    (t.children n).foldlM (fun into c =>
      t.copyWithin depth c (into.addUnchecked m (t.kind c)).2
        (into.addUnchecked m (t.kind c)).1) into

end TemplateLang.Tree
