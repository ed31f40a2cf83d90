import TemplateLang.Render.Renderer

/-! Rendering one step at a time. What is still to be done stands on a stack, and so does the way
out of each template that is open. A counter goes up on the way into a template and down on
the way out, whether its body succeeded or not; it is the counter, and not the stack, that a
template is refused by. Without a limit no template is refused, and calls in a circle go on
for ever. -/

namespace TemplateLang

namespace Rendering

/-- A part of a body, with the data that it reads. -/
inductive Work where
  | nodes (ns : List NodeRef) (d : Data)
  | node (n : NodeRef) (d : Data)
  /-- What is left of a conditional block, of which no branch was taken; `first` says whether none
  was looked at. -/
  | branches (first : Bool) (ns : List NodeRef) (d : Data)
  /-- What is left of the translation of a message. -/
  | parts (msg : NodeRef) (key : String) (parts : List MessagePart) (d : Data)

inductive Task where
  /-- To open a template. -/
  | enter (n : NodeRef) (d : Data)
  /-- To close the template that was opened last. -/
  | leave
  | work (w : Work)

def Task.isLeave : Task → Bool
  | .leave => true
  | _ => false

end Rendering

/-- A rendering on its way. -/
structure Rendering where
  tasks : List Rendering.Task
  /-- The counter of templates. -/
  depth : Nat
  out : String
  /-- After a failure the tasks are dropped. -/
  failed : Option RenderError

namespace Rendering

/-- Before a template is opened. -/
def start (n : NodeRef) (d : Data) : Rendering := ⟨[.enter n d], 0, "", none⟩

/-- How many templates were opened and not closed yet. -/
def openBodies (s : Rendering) : Nat := s.tasks.countP Task.isLeave

/-- The result of a rendering that has nothing left to do. -/
def result? (s : Rendering) : Option (Except RenderError String) :=
  match s.tasks, s.failed with
  | [], none => some (.ok s.out)
  | [], some e => some (.error e)
  | _ :: _, _ => none

end Rendering

namespace RenderContext

open Rendering

variable (c : RenderContext)

/-- What a part of a body writes at once, and what it leaves to do. -/
def expand : Work → Except RenderError (String × List Task)
  | .nodes [] _ => .ok ("", [])
  | .nodes (n :: rest) d => .ok ("", [.work (.node n d), .work (.nodes rest d)])
  | .node n d =>
    match c.tree.kind n with
    | .text content => .ok (content, [])
    | .print e directives _ =>
      (c.renderPrint (c.tree.serial n) d e directives).map fun text => (text, [])
    | .cond => .ok ("", [.work (.branches true (c.tree.children n) d)])
    | .msg key _ => do
      let bundle ← c.scope.msgBundle.mapError .compile
      match bundle.bind (·.get? key) with
      | some parts => .ok ("", [.work (.parts n key parts d)])
      | none => .ok ("", [.work (.nodes (c.tree.children n) d)])
    | .call callee passesData =>
      match c.templates.get? callee with
      | none => .error (.unknownTemplate callee)
      | some m => .ok ("", [.enter m (if passesData then d else .empty)])
    | kind => .error (misplaced (c.tree.serial n) kind)
  | .branches _ [] _ => .ok ("", [])
  | .branches first (n :: rest) d =>
    match c.tree.kind n with
    | .branch condition => do
      if (← c.evaluate d condition).truth then .ok ("", [.work (.nodes (c.tree.children n) d)])
      else .ok ("", [.work (.branches false rest d)])
    | .otherwise =>
      if first then .error (misplaced (c.tree.serial n) .otherwise)
      else .ok ("", [.work (.nodes (c.tree.children n) d)])
    | kind => .error (misplaced (c.tree.serial n) kind)
  | .parts _ _ [] _ => .ok ("", [])
  | .parts msg key (.text content :: rest) d => .ok (content, [.work (.parts msg key rest d)])
  | .parts msg key (.placeholder name :: rest) d =>
    match (c.tree.view msg).placeholder? name with
    | none => .error (.runtime (c.tree.serial msg) (.unknownPlaceholder key name))
    | some print =>
      (c.renderPrintNode d print).map fun text => (text, [.work (.parts msg key rest d)])

/-- One step, with the limit of the counter if there is one. -/
def step (limit : Option Nat) : Rendering → Rendering
  | ⟨[], depth, out, failed⟩ => ⟨[], depth, out, failed⟩
  | ⟨.leave :: rest, depth, out, failed⟩ => ⟨rest, depth - 1, out, failed⟩
  | ⟨_ :: rest, depth, out, some e⟩ => ⟨rest, depth, out, some e⟩
  | ⟨.enter n d :: rest, depth, out, none⟩ =>
    match limit.filter (· ≤ depth) with
    | some most => ⟨rest, depth, out, some (.runtime (c.tree.serial n) (.callDepth most))⟩
    | none => ⟨.work (.nodes (c.tree.children n) d) :: .leave :: rest, depth + 1, out, none⟩
  | ⟨.work w :: rest, depth, out, none⟩ =>
    match c.expand w with
    | .error e => ⟨rest, depth, out, some e⟩
    | .ok (text, tasks) => ⟨tasks ++ rest, depth, out ++ text, none⟩

/-- A rendering after so many steps. -/
def run (limit : Option Nat) (s : Rendering) : Nat → Rendering
  | 0 => s
  | k + 1 => c.step limit (run limit s k)

end RenderContext

/-- What a renderer reads from when it renders with a bundle. -/
def Renderer.context (r : Renderer) (bundle : Option Bundle) : RenderContext :=
  ⟨r.tree, r.templates, r.registry, ⟨some (Scope.sharedBindings bundle r.bidiDir).reverse, 1⟩⟩

/-- A name that stands for a template is rendered in the context of the renderer. -/
theorem Renderer.render_eq {r : Renderer} {name full : String} {n : NodeRef}
    (hname : r.resolveName name = .ok full) (hn : r.templates.get? full = some n) (d : Data)
    (bundle : Option Bundle) : r.render name d bundle =
      (r.context bundle).renderTemplate callDepthLimit (r.tree.view n) d := by
  rw [render, renderInScope, hname]
  simp only [hn]
  rfl

end TemplateLang
