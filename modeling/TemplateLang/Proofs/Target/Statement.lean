import Mathlib.Data.List.Basic
import TemplateLang.Target.Emission

/-! The statements in the body of a generated template: lines that append a value or call a
template, and blocks of branches. A writer is led through them by steps, which write each line
at the level of the blocks around it, go back to the level at which they start, and never go
back beyond the outermost level. -/

namespace TemplateLang

/-! ### Steps of a writer -/

inductive WriterStep where
  | line (content : String)
  | indent
  | dedent

namespace WriterStep

def apply (w : CodeWriter) : WriterStep → CodeWriter
  | .line content => w.line content
  | .indent => w.indent
  | .dedent => w.dedent

def run (w : CodeWriter) (steps : List WriterStep) : CodeWriter := steps.foldl apply w

@[simp] theorem run_nil (w : CodeWriter) : run w [] = w := rfl

@[simp] theorem run_cons (w : CodeWriter) (step : WriterStep) (steps : List WriterStep) :
    run w (step :: steps) = run (step.apply w) steps := rfl

theorem run_append (w : CodeWriter) (steps more : List WriterStep) :
    run w (steps ++ more) = run (run w steps) more := List.foldl_append

/-- From level `a` the steps write the lines and end at level `b`. There is no going back from
level zero. -/
inductive Traces : ℕ → List WriterStep → List CodeLine → ℕ → Prop
  | nil (a : ℕ) : Traces a [] [] a
  | line {a b : ℕ} {steps : List WriterStep} {lines : List CodeLine} (content : String) :
      Traces a steps lines b → Traces a (.line content :: steps) (.text a content :: lines) b
  | indent {a b : ℕ} {steps : List WriterStep} {lines : List CodeLine} :
      Traces (a + 1) steps lines b → Traces a (.indent :: steps) lines b
  | dedent {a b : ℕ} {steps : List WriterStep} {lines : List CodeLine} :
      Traces a steps lines b → Traces (a + 1) (.dedent :: steps) lines b

variable {a b c : ℕ} {steps more : List WriterStep} {lines after : List CodeLine}

theorem Traces.append (h : Traces a steps lines b) (h' : Traces b more after c) :
    Traces a (steps ++ more) (lines ++ after) c := by
  induction h with
  | nil => exact h'
  | line content _ ih => exact .line content (ih h')
  | indent _ ih => exact .indent (ih h')
  | dedent _ ih => exact .dedent (ih h')

/-- What the steps do to a writer. -/
theorem Traces.run_eq (h : Traces a steps lines b) (before : Array CodeLine) :
    run ⟨a, before⟩ steps = ⟨b, before ++ lines.toArray⟩ := by
  induction h generalizing before with
  | nil => simp
  | line content _ ih =>
    rw [run_cons, apply, CodeWriter.line, ih]
    simp
  | indent _ ih => exact ih before
  | dedent _ ih => exact ih before

end WriterStep

open WriterStep

/-! ### Statements -/

/-- What the body of a generated template calls its output and its data. -/
structure BodyNames where
  output : String
  data : String

namespace BodyNames

variable (names : BodyNames)

/-- The function that appends to the output. -/
def append : String := names.output ++ ".append"

/-- What a call passes as data. -/
def passed (passesData : Bool) : String := if passesData then names.data else "null"

/-- The arguments of a call of a template. -/
def arguments (passesData : Bool) : String := names.passed passesData ++ ", " ++ names.output

/-- What a call of a template ends with. -/
def callEnd (passesData : Bool) : String := "(" ++ names.arguments passesData ++ ");"

end BodyNames

/-- The line of a statement. -/
def statementLine (function arguments : String) : String := function ++ "(" ++ arguments ++ ");"

mutual

inductive Statement where
  | append (value : String)
  | call (target : String) (passesData : Bool)
  | block (test : String) (body : List Statement) (later : List LaterBranch)

/-- A branch behind the first one, which the last one may do without a test. -/
inductive LaterBranch where
  | mk (test : Option String) (body : List Statement)

end

/-- The line that opens a block. -/
def openLine (test : String) : String := "if (" ++ test ++ ") \x7b"

/-- The line between two branches. -/
def laterLine : Option String → String
  | some test => "\x7d else if (" ++ test ++ ") \x7b"
  | none => "\x7d else \x7b"

def closeLine : String := "\x7d"

section

variable (names : BodyNames)

mutual

def Statement.steps : Statement → List WriterStep
  | .append value => [.line (statementLine names.append value)]
  | .call target passesData => [.line (statementLine target (names.arguments passesData))]
  | .block test body later =>
    .line (openLine test) :: .indent :: bodySteps body ++ laterSteps later ++
      [.dedent, .line closeLine]

def bodySteps : List Statement → List WriterStep
  | [] => []
  | s :: rest => Statement.steps s ++ bodySteps rest

/-- The steps for the branches of an open block. -/
def laterSteps : List LaterBranch → List WriterStep
  | [] => []
  | .mk test body :: rest =>
    .dedent :: .line (laterLine test) :: .indent :: bodySteps body ++ laterSteps rest

end

mutual

/-- The lines of a statement in blocks up to the given level. -/
def Statement.lines (level : ℕ) : Statement → List CodeLine
  | .append value => [.text level (statementLine names.append value)]
  | .call target passesData => [.text level (statementLine target (names.arguments passesData))]
  | .block test body later =>
    .text level (openLine test) :: bodyLines (level + 1) body ++ laterLines level later ++
      [.text level closeLine]

def bodyLines (level : ℕ) : List Statement → List CodeLine
  | [] => []
  | s :: rest => Statement.lines level s ++ bodyLines level rest

def laterLines (level : ℕ) : List LaterBranch → List CodeLine
  | [] => []
  | .mk test body :: rest =>
    .text level (laterLine test) :: bodyLines (level + 1) body ++ laterLines level rest

end

mutual

theorem Statement.traces_steps (a : ℕ) : ∀ s : Statement,
    Traces a (s.steps names) (s.lines names a) a
  | .append value => .line _ (.nil a)
  | .call target passesData => .line _ (.nil a)
  | .block test body later => by
    have hblock := ((traces_bodySteps (a + 1) body).append (traces_laterSteps a later)).append
      (.dedent (.line closeLine (.nil a)))
    simpa [Statement.steps, Statement.lines] using Traces.line (openLine test) (.indent hblock)

theorem traces_bodySteps (a : ℕ) : ∀ body : List Statement,
    Traces a (bodySteps names body) (bodyLines names a body) a
  | [] => .nil a
  | s :: rest => (Statement.traces_steps a s).append (traces_bodySteps a rest)

/-- Between the branches of a block the level is that of their bodies. -/
theorem traces_laterSteps (a : ℕ) : ∀ later : List LaterBranch,
    Traces (a + 1) (laterSteps names later) (laterLines names a later) (a + 1)
  | [] => .nil _
  | .mk test body :: rest => by
    have hrest := (traces_bodySteps (a + 1) body).append (traces_laterSteps a rest)
    simpa [laterSteps, laterLines] using Traces.dedent (.line (laterLine test) (.indent hrest))

end

/-- The line is at the level or inside it. -/
def CodeLine.AtLeast (a : ℕ) : CodeLine → Prop
  | .blank => False
  | .text b _ => a ≤ b

theorem CodeLine.AtLeast.of_succ {a : ℕ} {l : CodeLine} (h : l.AtLeast (a + 1)) : l.AtLeast a := by
  cases l with
  | blank => exact h
  | text b content => exact Nat.le_of_succ_le h

mutual

theorem Statement.atLeast_lines (a : ℕ) : ∀ s : Statement, ∀ l ∈ s.lines names a, l.AtLeast a
  | .append value, l, h => by
    obtain rfl := List.mem_singleton.mp h
    exact Nat.le_refl _
  | .call target passesData, l, h => by
    obtain rfl := List.mem_singleton.mp h
    exact Nat.le_refl _
  | .block test body later, l, h => by
    rw [Statement.lines, List.mem_append, List.cons_append, List.mem_cons, List.mem_append,
      List.mem_singleton] at h
    rcases h with (rfl | h | h) | rfl
    · exact Nat.le_refl _
    · exact (atLeast_bodyLines (a + 1) body l h).of_succ
    · exact atLeast_laterLines a later l h
    · exact Nat.le_refl _

/-- No line of a body is outside the level of the body. -/
theorem atLeast_bodyLines (a : ℕ) : ∀ body : List Statement,
    ∀ l ∈ bodyLines names a body, l.AtLeast a
  | [], _, h => absurd h List.not_mem_nil
  | s :: rest, l, h => (List.mem_append.mp h).elim (Statement.atLeast_lines a s l)
      (atLeast_bodyLines a rest l)

theorem atLeast_laterLines (a : ℕ) : ∀ later : List LaterBranch,
    ∀ l ∈ laterLines names a later, l.AtLeast a
  | [], _, h => absurd h List.not_mem_nil
  | .mk test body :: rest, l, h => by
    rw [laterLines, List.cons_append, List.mem_cons, List.mem_append] at h
    rcases h with rfl | h | h
    · exact Nat.le_refl _
    · exact (atLeast_bodyLines (a + 1) body l h).of_succ
    · exact atLeast_laterLines a rest l h

end

theorem bodySteps_append (body more : List Statement) :
    bodySteps names (body ++ more) = bodySteps names body ++ bodySteps names more := by
  induction body with
  | nil => rfl
  | cons s body ih => rw [List.cons_append, bodySteps, bodySteps, ih, List.append_assoc]

end

end TemplateLang
