/-! Lines of generated code, each at a level of indentation. -/

namespace TemplateLang

inductive CodeLine where
  | blank
  | text (level : Nat) (content : String)
deriving DecidableEq

def CodeLine.render : CodeLine → String
  | .blank => "\n"
  | .text level content => String.join (List.replicate level "  ") ++ content ++ "\n"

structure CodeWriter where
  level : Nat
  lines : Array CodeLine

namespace CodeWriter

def empty : CodeWriter := ⟨0, #[]⟩

/-- Writes a line at the level of the writer. -/
def line (w : CodeWriter) (content : String) : CodeWriter :=
  { w with lines := w.lines.push (.text w.level content) }

def blank (w : CodeWriter) : CodeWriter := { w with lines := w.lines.push .blank }

def indent (w : CodeWriter) : CodeWriter := { w with level := w.level + 1 }

/-- Goes back one level; the outermost level stays. -/
def dedent (w : CodeWriter) : CodeWriter := { w with level := w.level - 1 }

/-- The code written so far. -/
def code (w : CodeWriter) : String := String.join (w.lines.toList.map CodeLine.render)

end CodeWriter

end TemplateLang
