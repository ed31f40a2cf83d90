import TemplateLang.Proofs.Message.Localize
import TemplateLang.Proofs.Result
import TemplateLang.Render.Template

/-! Renderings that agree: both give the same text, or both fail for the same reason, perhaps at
nodes with other serial numbers. Of the scope, expressions read the direction alone; where no
messages are bound, a rendering depends on the kinds in a view alone. -/

namespace TemplateLang

variable {α β : Type}

/-- An error without the serial number of its node. -/
def RenderError.anonymous : RenderError → RenderError
  | .runtime _ fault => .runtime 0 fault
  | .compile (.unsupportedDirective directive backend _) =>
    .compile (.unsupportedDirective directive backend 0)
  | e => e

/-- Both computations give the same result, or fail with the same error but for serial numbers. -/
inductive Agree : Except RenderError α → Except RenderError α → Prop
  | ok (a : α) : Agree (.ok a) (.ok a)
  | error {e e' : RenderError} (h : e.anonymous = e'.anonymous) : Agree (.error e) (.error e')

namespace Agree

variable {x y z : Except RenderError α} {f g : α → Except RenderError β}

theorem refl (x : Except RenderError α) : Agree x x := by
  cases x with
  | error e => exact .error rfl
  | ok a => exact .ok a

theorem symm (h : Agree x y) : Agree y x := by
  cases h with
  | ok a => exact .ok a
  | error h => exact .error h.symm

theorem trans (hxy : Agree x y) (hyz : Agree y z) : Agree x z := by
  cases hxy with
  | ok a => exact hyz
  | error h =>
    cases hyz with
    | error h' => exact .error (h.trans h')

theorem bind (h : Agree x y) (hf : ∀ a, Agree (f a) (g a)) : Agree (x >>= f) (y >>= g) := by
  cases h with
  | ok a => exact hf a
  | error h => exact .error h

/-- What agrees up to a step, and agrees in the step, agrees with equal results. -/
theorem bind_same (x : Except RenderError α) (hf : ∀ a, Agree (f a) (g a)) :
    Agree (x >>= f) (x >>= g) :=
  (refl x).bind hf

end Agree

/-- Evaluation reads the direction of the scope alone. -/
theorem Expr.eval_congr {s s' : Scope} (h : s'.direction = s.direction) (d : Data) (e : Expr) :
    e.eval s' d = e.eval s d := by
  induction e with
  | not e ih => rw [eval, eval, ih]
  | eq left right ihl ihr => rw [eval, eval, ihl, ihr]
  | bidi f => rw [eval, eval, h]
  | _ => rfl

namespace RenderContext

variable {c c' : RenderContext} {call call' : View → Data → Except RenderError String} {d : Data}

/-- Contexts that differ in their messages and their trees, with renderings of templates that
agree. -/
structure Corresponds (c c' : RenderContext)
    (call call' : View → Data → Except RenderError String) : Prop where
  registry : c'.registry = c.registry
  templates : c'.templates = c.templates
  direction : c'.scope.direction = c.scope.direction
  calls : ∀ name n, c.templates.get? name = some n → ∀ d,
    Agree (call (c.tree.view n) d) (call' (c'.tree.view n) d)

theorem Corresponds.refl (c : RenderContext) (call : View → Data → Except RenderError String) :
    Corresponds c c call call :=
  ⟨rfl, rfl, rfl, fun _ _ _ _ => .refl _⟩

theorem Corresponds.evaluate_eq (h : Corresponds c c' call call') (d : Data) (e : Expr) :
    c'.evaluate d e = c.evaluate d e := by
  unfold evaluate
  rw [Expr.eval_congr h.direction]

/-! ### Prints and calls -/

theorem Corresponds.applyCall (h : Corresponds c c' call call') (serial serial' : ℕ)
    (site text : String) (directive : DirectiveCall) :
    Agree (c.applyCall serial site d text directive)
      (c'.applyCall serial' site d text directive) := by
  have hargs : ∀ e : Expr, c'.evaluate d e = c.evaluate d e := h.evaluate_eq d
  unfold RenderContext.applyCall
  simp only [h.registry, hargs]
  refine .bind_same _ fun directive => ?_
  cases directive.interpreted? with
  | none => exact .error rfl
  | some apply =>
    refine .bind_same _ fun args => ?_
    cases apply text args with
    | error e => exact .error rfl
    | ok text => exact .ok text

theorem Corresponds.foldlM_applyCall (h : Corresponds c c' call call') (serial serial' : ℕ)
    (site text : String) (directives : List DirectiveCall) :
    Agree (directives.foldlM (c.applyCall serial site d) text)
      (directives.foldlM (c'.applyCall serial' site d) text) := by
  induction directives generalizing text with
  | nil => exact .refl _
  | cons directive directives ih =>
    rw [List.foldlM_cons, List.foldlM_cons]
    exact (h.applyCall serial serial' site text directive).bind ih

theorem Corresponds.renderPrint (h : Corresponds c c' call call') (serial serial' : ℕ) (e : Expr)
    (directives : List DirectiveCall) :
    Agree (c.renderPrint serial d e directives) (c'.renderPrint serial' d e directives) := by
  unfold RenderContext.renderPrint
  rw [h.evaluate_eq]
  refine .bind_same _ fun value => ?_
  by_cases hnull : value.isNull
  · rw [if_pos hnull, if_pos hnull]
    exact .error rfl
  · rw [if_neg hnull, if_neg hnull]
    exact h.foldlM_applyCall serial serial' _ _ directives

theorem Corresponds.renderCall (h : Corresponds c c' call call') (callee : String)
    (passesData : Bool) :
    Agree (c.renderCall call d callee passesData) (c'.renderCall call' d callee passesData) := by
  unfold RenderContext.renderCall
  rw [h.templates]
  cases hn : c.templates.get? callee with
  | none => exact .refl _
  | some n => exact h.calls callee n hn _

/-! ### Bodies -/

theorem renderNodes_singleton (v : View) : c.renderNodes call d [v] = c.renderNode call d v := by
  rw [renderNodes, renderNodes]
  cases c.renderNode call d v with
  | error e => rfl
  | ok text =>
    rw [ok_bind, ok_bind, String.append_empty]
    rfl

theorem renderNodes_append (vs ws : List View) :
    c.renderNodes call d (vs ++ ws) =
      (do return (← c.renderNodes call d vs) ++ (← c.renderNodes call d ws)) := by
  induction vs with
  | nil =>
    rw [List.nil_append, renderNodes]
    cases c.renderNodes call d ws with
    | error e => rfl
    | ok text =>
      rw [ok_bind, ok_bind, String.empty_append]
      rfl
  | cons v vs ih =>
    rw [List.cons_append, renderNodes, renderNodes, ih]
    cases c.renderNode call d v with
    | error e => rfl
    | ok text =>
      cases c.renderNodes call d vs with
      | error e => rfl
      | ok texts =>
        cases c.renderNodes call d ws with
        | error e => rfl
        | ok more => exact congrArg Except.ok (String.append_assoc ..).symm

/-- Bodies agree when each node agrees with what stands in its place. -/
theorem agree_renderNodes_flatMap {f : View → List View} {vs : List View}
    (h : ∀ v ∈ vs, Agree (c.renderNode call d v) (c'.renderNodes call' d (f v))) :
    Agree (c.renderNodes call d vs) (c'.renderNodes call' d (vs.flatMap f)) := by
  induction vs with
  | nil => exact .refl _
  | cons v vs ih =>
    rw [List.flatMap_cons, renderNodes_append, renderNodes]
    have hrest := ih fun w hw => h w (List.mem_cons_of_mem _ hw)
    exact (h v (List.mem_cons_self ..)).bind fun text => hrest.bind fun texts => .refl _

/-- Branches agree when their conditions are the same and their bodies agree. -/
theorem Corresponds.renderBranches (h : Corresponds c c' call call') {f : View → View}
    {vs : List View} (hkind : ∀ v ∈ vs, (f v).kind = v.kind)
    (hbody : ∀ v ∈ vs, Agree (c.renderNodes call d v.children)
      (c'.renderNodes call' d (f v).children)) (first : Bool) :
    Agree (c.renderBranches call d first vs) (c'.renderBranches call' d first (vs.map f)) := by
  induction vs generalizing first with
  | nil => exact .refl _
  | cons v vs ih =>
    have hrest := ih (fun w hw => hkind w (List.mem_cons_of_mem _ hw))
      fun w hw => hbody w (List.mem_cons_of_mem _ hw)
    have hk := hkind v (List.mem_cons_self ..)
    have hb := hbody v (List.mem_cons_self ..)
    rw [List.map_cons]
    generalize f v = w at hk hb
    obtain ⟨ref, serial, kind, children⟩ := v
    obtain ⟨ref', serial', kind', children'⟩ := w
    obtain rfl : kind' = kind := hk
    cases kind' with
    | branch condition =>
      rw [RenderContext.renderBranches, RenderContext.renderBranches, h.evaluate_eq]
      refine .bind_same _ fun value => ?_
      by_cases htrue : value.truth
      · rw [if_pos htrue, if_pos htrue]
        exact hb
      · rw [if_neg htrue, if_neg htrue]
        exact hrest false
    | otherwise =>
      rw [RenderContext.renderBranches, RenderContext.renderBranches]
      cases first with
      | true => exact .error rfl
      | false => exact hb
    | _ => exact .error rfl

/-- Where no messages are bound, handles and serial numbers change no text. -/
theorem agree_anonymous (hnone : c.scope.msgBundle = .ok none) (v : View) :
    Agree (c.renderNode call d v) (c.renderNode call d v.anonymous) ∧
      Agree (c.renderNodes call d v.children)
        (c.renderNodes call d (v.children.map View.anonymous)) := by
  have hsame := Corresponds.refl c call
  induction v using View.induction with
  | node ref serial kind children ih =>
    have hbody : Agree (c.renderNodes call d children)
        (c.renderNodes call d (children.map View.anonymous)) := by
      rw [List.map_eq_flatMap]
      refine agree_renderNodes_flatMap fun v hv => ?_
      rw [renderNodes_singleton]
      exact (ih v hv).1
    refine ⟨?_, hbody⟩
    rw [View.anonymous]
    cases kind with
    | text content => exact .ok content
    | print e directives escape =>
      rw [renderNode, renderNode]
      exact hsame.renderPrint serial 0 e directives
    | cond =>
      rw [renderNode, renderNode]
      refine hsame.renderBranches (fun v _ => v.kind_anonymous) (fun v hv => ?_) true
      rw [View.children_anonymous]
      exact (ih v hv).2
    | msg key desc =>
      rw [renderNode, renderNode, hnone]
      exact hbody
    | call callee passesData =>
      rw [renderNode, renderNode]
      exact hsame.renderCall callee passesData
    | _ => exact .error rfl

theorem agree_map_anonymous (hnone : c.scope.msgBundle = .ok none) (vs : List View) :
    Agree (c.renderNodes call d vs) (c.renderNodes call d (vs.map View.anonymous)) := by
  rw [List.map_eq_flatMap]
  refine agree_renderNodes_flatMap fun v _ => ?_
  rw [renderNodes_singleton]
  exact (agree_anonymous hnone v).1

end RenderContext

end TemplateLang
