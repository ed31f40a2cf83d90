import TemplateLang.Proofs.Result
import TemplateLang.Proofs.Target.Statement

/-! The statements of a body. They follow the nodes of the body in order: one line for each print,
each call and each text that is not empty, and a block for each conditional block with a
branch for each of its branches; a message is what it contains. Emission leads the writer
through the steps of these statements, whatever the writer holds. -/

namespace TemplateLang

open Dialect

/-- How statements are written in a dialect. -/
structure Dialect.Writes (d : Dialect) (names : BodyNames) (target : String → String → String) :
    Prop where
  append_eq : ∀ f, d.append f = statementLine names.append f.text
  call_eq : ∀ ns callee passesData,
    d.call ns callee passesData = statementLine (target ns callee) (names.arguments passesData)

section

variable (d : Dialect) (registry : Registry) (target : String → String)

mutual

def outlineNode : View → Except CompileError (List Statement)
  | .node _ serial kind children =>
    match kind with
    | .text content => .ok (if content = "" then [] else [.append (d.literal content).text])
    | .print e directives _ => do
      return [.append (← d.printValue registry serial e directives).text]
    | .cond => outlineBlock children
    | .msg _ _ => outlineBody children
    | .call callee passesData => .ok [.call (target callee) passesData]
    | kind => .error (misplaced serial kind)

/-- The statements of nodes next to each other. -/
def outlineBody : List View → Except CompileError (List Statement)
  | [] => .ok []
  | v :: rest => do return (← outlineNode v) ++ (← outlineBody rest)

/-- The block of some branches, if there are any. -/
def outlineBlock : List View → Except CompileError (List Statement)
  | [] => .ok []
  | .node _ serial kind children :: rest =>
    match kind with
    | .branch condition => do
      let test ← d.expr serial condition
      let body ← outlineBody children
      return [.block (d.test test).text body (← outlineLater rest)]
    | kind => .error (misplaced serial kind)

def outlineLater : List View → Except CompileError (List LaterBranch)
  | [] => .ok []
  | .node _ serial kind children :: rest =>
    match kind with
    | .branch condition => do
      let test ← d.expr serial condition
      let body ← outlineBody children
      return .mk (some (d.test test).text) body :: (← outlineLater rest)
    | .otherwise => do
      let body ← outlineBody children
      return .mk none body :: (← outlineLater rest)
    | kind => .error (misplaced serial kind)

end

end

/-! ### Emission -/

open WriterStep

/-- A first computation that stands for steps of the writer, and a second one. -/
theorem map_bind_map {α β γ : Type} {x : Except CompileError α} {y : Except CompileError β}
    {f : α → CodeWriter} {g : CodeWriter → β → CodeWriter} {k : α → β → γ} {h : γ → CodeWriter}
    (hk : ∀ a b, g (f a) b = h (k a b)) :
    (x.map f >>= fun w => y.map (g w)) =
      (do return k (← x) (← y) : Except CompileError γ).map h := by
  cases x with
  | error e => rfl
  | ok a =>
    cases y with
    | error e => rfl
    | ok b => exact congrArg Except.ok (hk a b)

section

variable {d : Dialect} {names : BodyNames} {target : String → String → String}

mutual

theorem emitNode_eq (hd : d.Writes names target) (registry : Registry) (ns : String)
    (w : CodeWriter) : ∀ v : View, d.emitNode registry ns w v =
    (outlineNode d registry (target ns) v).map fun body => run w (bodySteps names body)
  | .node _ serial kind children => by
    cases kind with
    | text content =>
      by_cases hempty : content = ""
      · simp [emitNode, outlineNode, hempty, Except.map, bodySteps]
      · simp [emitNode, outlineNode, hempty, Except.map, bodySteps, Statement.steps, hd.append_eq,
          WriterStep.apply]
    | print e directives escape =>
      rw [emitNode, outlineNode]
      cases d.printValue registry serial e directives with
      | error e => rfl
      | ok value => exact congrArg (Except.ok <| w.line ·) (hd.append_eq value)
    | cond => exact emitBlock_eq hd registry ns w children
    | msg key desc => exact emitNodes_eq hd registry ns w children
    | call callee passesData =>
      exact congrArg (Except.ok <| w.line ·) (hd.call_eq ns callee passesData)
    | _ => rfl

theorem emitNodes_eq (hd : d.Writes names target) (registry : Registry) (ns : String)
    (w : CodeWriter) : ∀ vs : List View, d.emitNodes registry ns w vs =
    (outlineBody d registry (target ns) vs).map fun body => run w (bodySteps names body)
  | [] => rfl
  | v :: rest => by
    rw [emitNodes, emitNode_eq hd registry ns w v, outlineBody]
    simp only [emitNodes_eq hd registry ns _ rest]
    exact map_bind_map fun body more => by rw [bodySteps_append, run_append]

theorem emitBlock_eq (hd : d.Writes names target) (registry : Registry) (ns : String)
    (w : CodeWriter) : ∀ vs : List View,
    (do
      let w ← d.emitBranches registry ns true w vs
      return if vs.isEmpty then w else w.dedent.line "\x7d") =
    (outlineBlock d registry (target ns) vs).map fun body => run w (bodySteps names body)
  | [] => rfl
  | .node _ serial kind children :: rest => by
    cases kind with
    | branch condition =>
      rw [emitBranches, outlineBlock]
      cases d.expr serial condition with
      | error e => rfl
      | ok test =>
        simp only [ok_bind, emitNodes_eq hd registry ns _ children,
          emitLater_eq hd registry ns _ rest]
        cases outlineBody d registry (target ns) children with
        | error e => rfl
        | ok body =>
          cases outlineLater d registry (target ns) rest with
          | error e => rfl
          | ok later =>
            simp [Except.map, bodySteps, Statement.steps, run_append, openBranch, openLine,
              closeLine, WriterStep.apply]
    | _ => rfl

theorem emitLater_eq (hd : d.Writes names target) (registry : Registry) (ns : String)
    (w : CodeWriter) : ∀ vs : List View, d.emitBranches registry ns false w vs =
    (outlineLater d registry (target ns) vs).map fun later => run w (laterSteps names later)
  | [] => rfl
  | .node _ serial kind children :: rest => by
    cases kind with
    | branch condition =>
      rw [emitBranches, outlineLater]
      cases d.expr serial condition with
      | error e => rfl
      | ok test =>
        simp only [ok_bind, emitNodes_eq hd registry ns _ children,
          emitLater_eq hd registry ns _ rest]
        exact map_bind_map fun body later => by
          rw [laterSteps, run_append]
          rfl
    | otherwise =>
      rw [emitBranches, outlineLater]
      simp only [emitNodes_eq hd registry ns _ children, emitLater_eq hd registry ns _ rest]
      exact map_bind_map fun body later => by
        rw [laterSteps, run_append]
        rfl
    | _ => rfl

end

end

end TemplateLang
