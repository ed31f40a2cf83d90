import TemplateLang.Proofs.Tree.Expressions
import TemplateLang.Render.Template

/-! Equal renderings. Two contexts, each with data of its own, render a body alike when the
expressions in it have the same values and the templates that it calls are rendered alike. -/

namespace TemplateLang.RenderContext

variable {c c' : RenderContext} {call call' : View → Data → Except RenderError String} {d d' : Data}

/-- A directive is applied alike where its arguments have the same values. -/
theorem applyCall_congr (hreg : c'.registry = c.registry) {directive : DirectiveCall}
    (hargs : ∀ e ∈ directive.args, c'.evaluate d' e = c.evaluate d e) (serial : ℕ)
    (site text : String) :
    c'.applyCall serial site d' text directive = c.applyCall serial site d text directive := by
  have hmap : (directive.args.mapM fun e => do return (← c'.evaluate d' e).toJson) =
      directive.args.mapM fun e => do return (← c.evaluate d e).toJson := by
    generalize directive.args = args at hargs
    induction args with
    | nil => rfl
    | cons e args ih =>
      rw [List.mapM_cons, List.mapM_cons, hargs e (List.mem_cons_self ..),
        ih fun e he => hargs e (List.mem_cons_of_mem _ he)]
  unfold applyCall
  simp only [hreg, hmap]

theorem foldlM_applyCall_congr (hreg : c'.registry = c.registry) {directives : List DirectiveCall}
    (hargs : ∀ e ∈ directives.flatMap DirectiveCall.args, c'.evaluate d' e = c.evaluate d e)
    (serial : ℕ) (site text : String) :
    directives.foldlM (c'.applyCall serial site d') text =
      directives.foldlM (c.applyCall serial site d) text := by
  induction directives generalizing text with
  | nil => rfl
  | cons directive directives ih =>
    rw [List.flatMap_cons, List.forall_mem_append] at hargs
    rw [List.foldlM_cons, List.foldlM_cons, applyCall_congr hreg hargs.1]
    exact congrArg _ (funext (ih hargs.2))

/-- A print is rendered alike where its expressions have the same values. -/
theorem renderPrint_congr (hreg : c'.registry = c.registry) {e : Expr}
    {directives : List DirectiveCall}
    (hexprs : ∀ e' ∈ e :: directives.flatMap DirectiveCall.args,
      c'.evaluate d' e' = c.evaluate d e') (serial : ℕ) :
    c'.renderPrint serial d' e directives = c.renderPrint serial d e directives := by
  obtain ⟨he, hargs⟩ := List.forall_mem_cons.mp hexprs
  unfold renderPrint
  simp only [he, foldlM_applyCall_congr hreg hargs]

theorem renderNodes_congr {vs : List View}
    (h : ∀ v ∈ vs, c'.renderNode call' d' v = c.renderNode call d v) :
    c'.renderNodes call' d' vs = c.renderNodes call d vs := by
  induction vs with
  | nil => rfl
  | cons v vs ih =>
    rw [renderNodes, renderNodes, h v (List.mem_cons_self ..),
      ih fun w hw => h w (List.mem_cons_of_mem _ hw)]

/-- The same branch is taken where the conditions have the same values. -/
theorem renderBranches_congr {vs : List View}
    (hexprs : ∀ v ∈ vs, ∀ e ∈ v.kind.exprs, c'.evaluate d' e = c.evaluate d e)
    (hbody : ∀ v ∈ vs, c'.renderNodes call' d' v.children = c.renderNodes call d v.children)
    (first : Bool) : c'.renderBranches call' d' first vs = c.renderBranches call d first vs := by
  induction vs generalizing first with
  | nil => rfl
  | cons v vs ih =>
    have he := hexprs v (List.mem_cons_self ..)
    have hb := hbody v (List.mem_cons_self ..)
    have hrest := ih (fun w hw => hexprs w (List.mem_cons_of_mem _ hw))
      (fun w hw => hbody w (List.mem_cons_of_mem _ hw)) false
    obtain ⟨ref, serial, kind, children⟩ := v
    cases kind with
    | branch condition =>
      rw [renderBranches, renderBranches, he condition (List.mem_singleton_self _), hrest]
      exact congrArg _ (funext fun value => by rw [show c'.renderNodes call' d' children =
        c.renderNodes call d children from hb])
    | otherwise =>
      rw [renderBranches, renderBranches]
      exact if_congr Iff.rfl rfl hb
    | _ => rfl

end TemplateLang.RenderContext
