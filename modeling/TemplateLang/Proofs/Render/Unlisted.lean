import TemplateLang.Proofs.Message.Dissolved
import TemplateLang.Proofs.Name.TemplateSet
import TemplateLang.Proofs.Render.Agreement
import TemplateLang.Proofs.Render.Congruence
import TemplateLang.Render.Renderer

/-! Rendering with a bundle that lists no message of the tree. The bundle is asked at messages
alone, and there it has nothing to say; what else the scope gives is the direction. -/

namespace TemplateLang

namespace RenderContext

variable {c c' : RenderContext} {call call' : View → Data → Except RenderError String}
  {bundle : Option Bundle} {v : View} {d : Data}

/-- Contexts that differ in the scope alone, which has the same direction and no bundle in the
second. -/
structure Unbundled (bundle : Option Bundle) (c c' : RenderContext) : Prop where
  tree : c'.tree = c.tree
  templates : c'.templates = c.templates
  registry : c'.registry = c.registry
  direction : c'.scope.direction = c.scope.direction
  msgBundle : c.scope.msgBundle = .ok bundle
  msgBundle' : c'.scope.msgBundle = .ok none

namespace Unbundled

theorem evaluate_eq (h : Unbundled bundle c c') (d : Data) (e : Expr) :
    c'.evaluate d e = c.evaluate d e := by
  unfold evaluate
  rw [Expr.eval_congr h.direction]

theorem renderCall_eq (h : Unbundled bundle c c')
    (hcalls : ∀ name n, c.templates.get? name = some n → ∀ d,
      call' (c.tree.view n) d = call (c.tree.view n) d) (d : Data) (callee : String)
    (passesData : Bool) :
    c'.renderCall call' d callee passesData = c.renderCall call d callee passesData := by
  unfold renderCall
  rw [h.templates, h.tree]
  cases hn : c.templates.get? callee with
  | none => rfl
  | some n => exact hcalls callee n hn _

/-- Where the bundle lists no message of a view, it does not matter to the text. -/
theorem renderNode_eq (h : Unbundled bundle c c')
    (hcalls : ∀ name n, c.templates.get? name = some n → ∀ d,
      call' (c.tree.view n) d = call (c.tree.view n) d) (hv : v.Unlisted bundle) :
    c'.renderNode call' d v = c.renderNode call d v ∧
      c'.renderNodes call' d v.children = c.renderNodes call d v.children := by
  induction v using View.induction with
  | node ref serial kind children ih =>
    have hbelow := fun w hw => ih w hw (hv.child hw)
    have hbody : c'.renderNodes call' d children = c.renderNodes call d children :=
      renderNodes_congr fun w hw => (hbelow w hw).1
    refine ⟨?_, hbody⟩
    cases kind with
    | print e directives escape =>
      rw [renderNode, renderNode]
      exact renderPrint_congr h.registry (fun e _ => h.evaluate_eq d e) serial
    | cond =>
      rw [renderNode, renderNode]
      exact renderBranches_congr (fun w _ e _ => h.evaluate_eq d e)
        (fun w hw => (hbelow w hw).2) true
    | msg key desc =>
      have hnone : bundle.bind (·.get? key) = none := hv.translation_eq
      rw [renderNode, renderNode, h.msgBundle, h.msgBundle', hbody]
      simp only [Except.mapError, ok_bind, hnone, Option.bind_none]
    | call callee passesData =>
      rw [renderNode, renderNode]
      exact h.renderCall_eq hcalls d callee passesData
    | _ => rfl

/-- The same for templates, however many of them may be open at once. -/
theorem renderTemplate_eq (h : Unbundled bundle c c')
    (hset : ∀ name n, c.templates.get? name = some n → (c.tree.view n).Unlisted bundle)
    (budget : ℕ) (hv : v.Unlisted bundle) :
    c'.renderTemplate budget v d = c.renderTemplate budget v d := by
  induction budget generalizing v d with
  | zero => rfl
  | succ budget ih =>
    rw [renderTemplate, renderTemplate]
    exact (h.renderNode_eq (fun name n hn d => ih (hset name n hn)) hv).2

end Unbundled

end RenderContext

namespace Renderer

/-- A bundle that lists no message of the tree, and has no direction of its own, changes no
rendering. -/
theorem render_unlisted (r : Renderer) {b : Bundle}
    (hset : ∀ name n, r.templates.get? name = some n → (r.tree.view n).Unlisted (some b))
    (hdir : Direction.resolve r.bidiDir (some b.locale) = Direction.resolve r.bidiDir none)
    (name : String) (d : Data) : r.render name d (some b) = r.render name d none := by
  have h : RenderContext.Unbundled (some b)
      ⟨r.tree, r.templates, r.registry,
        ⟨some (Scope.sharedBindings (some b) r.bidiDir).reverse, 1⟩⟩
      ⟨r.tree, r.templates, r.registry,
        ⟨some (Scope.sharedBindings none r.bidiDir).reverse, 1⟩⟩ :=
    ⟨rfl, rfl, rfl, congrArg Except.ok hdir.symm, rfl, rfl⟩
  rw [render, render, renderInScope, renderInScope]
  cases r.resolveName name with
  | error e => rfl
  | ok full =>
    simp only
    cases hn : r.templates.get? full with
    | none => rfl
    | some n => exact (h.renderTemplate_eq hset callDepthLimit (hset full n hn)).symm

end Renderer

end TemplateLang
