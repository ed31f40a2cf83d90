import TemplateLang.Message.Bundle
import TemplateLang.Tree.View

/-! Placeholders of localized messages. A placeholder refers to the first print below the message
whose expression has the placeholder's text as its source. -/

namespace TemplateLang

/-- Whether a node is a print of an expression with this source. -/
def NodeKind.prints (source : String) : NodeKind → Bool
  | .print expr _ _ => expr.source = source
  | _ => false

/-- The print below a message that a placeholder refers to. -/
def View.placeholder? (msg : View) (name : String) : Option View :=
  msg.nodes.tail.find? fun v => v.kind.prints name

end TemplateLang
