import TemplateLang.Direction.Folding
import TemplateLang.Value.Data

/-! Evaluating expressions. A reference that leads nowhere is null; helpers that depend on
the direction take it from the open frame of the scope. -/

namespace TemplateLang

namespace Expr

/-- The value of an expression that is a literal. -/
def literalValue : Expr → Value
  | .str s => .string s
  | .number n => .number n
  | .bool b => .boolean b
  | _ => .null

def eval (s : Scope) (d : Data) : Expr → Except CompileError Value
  | .data path => .ok ((d.get? path).getD .null)
  | .str s => .ok (.string s)
  | .number n => .ok (.number n)
  | .bool b => .ok (.boolean b)
  | .not e => return .boolean !(← eval s d e).truth
  | .eq left right => do
    let left ← eval s d left
    let right ← eval s d right
    return .boolean (left.looseEq right)
  | .bidi f => return (f.fold (← s.direction)).literalValue

end Expr

end TemplateLang
