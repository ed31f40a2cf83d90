/-! What templates are turned into: the output of an interpreter, or source of another
language. -/

namespace TemplateLang

inductive Backend where
  | interpreter
  | jsSource
  | javaSource
deriving DecidableEq

namespace Backend

def name : Backend → String
  | .interpreter => "interpreter"
  | .jsSource => "JS source"
  | .javaSource => "Java source"

end Backend

end TemplateLang
