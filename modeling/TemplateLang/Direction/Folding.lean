import TemplateLang.Directive.Check
import TemplateLang.Scope.Basic

/-! Folding the helpers that depend on the direction of the text into the literals that they
mean once the direction is known. -/

namespace TemplateLang

/-- What a helper means in a direction. -/
def BidiFn.fold (d : Direction) : BidiFn → Expr
  | .globalDir => .number (.ofInt d.toInt)
  | .startEdge => .str d.startEdge
  | .endEdge => .str d.endEdge

namespace Expr

/-- Folds all helpers of an expression, and tells how many there were. -/
def fold (d : Direction) : Expr → Nat × Expr
  | .bidi f => (1, f.fold d)
  | .not e =>
    let (n, e) := fold d e
    (n, .not e)
  | .eq left right =>
    let (m, left) := fold d left
    let (n, right) := fold d right
    (m + n, .eq left right)
  | e => (0, e)

end Expr

/-- Folds expressions one after the other. -/
def foldExprs (d : Direction) : List Expr → Nat × List Expr
  | [] => (0, [])
  | e :: rest =>
    let (m, e) := e.fold d
    let (n, rest) := foldExprs d rest
    (m + n, e :: rest)

def foldCalls (d : Direction) : List DirectiveCall → Nat × List DirectiveCall
  | [] => (0, [])
  | call :: rest =>
    let (m, args) := foldExprs d call.args
    let (n, rest) := foldCalls d rest
    (m + n, ⟨call.name, args⟩ :: rest)

/-- Folds the expressions that a node carries, adding to the count. -/
def NodeKind.fold (d : Direction) (count : Nat) : NodeKind → Nat × NodeKind
  | .print expr directives escape =>
    let (m, expr) := expr.fold d
    let (n, directives) := foldCalls d directives
    (count + m + n, .print expr directives escape)
  | .branch condition =>
    let (n, condition) := condition.fold d
    (count + n, .branch condition)
  | kind => (count, kind)

namespace Tree

/-- Folds every helper reachable from the root, and tells how many there were. -/
def foldDirection (t : Tree) (d : Direction) : Nat × Tree :=
  t.mapKinds (fun kind => !kind.isPrint) (NodeKind.fold d) 0

/-- Folds every helper in the direction bound in the open frame of a scope. -/
def optimizeBidi (t : Tree) (s : Scope) : Except CompileError Nat × Tree :=
  match s.direction with
  | .error e => (.error e, t)
  | .ok d =>
    let (count, t) := t.foldDirection d
    (.ok count, t)

end Tree

end TemplateLang
