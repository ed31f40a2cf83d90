import Mathlib.Data.List.Forall2
import TemplateLang.Proofs.Escaping.EscapedText
import TemplateLang.Proofs.Result
import TemplateLang.Render.Template

/-! The text of an escaped print. The default directive of a context escapes the value, and the
directives behind it cut the text or break its lines. The text is safe exactly when no cut
leaves a divided unit behind; otherwise it ends in a fragment of one unit and dots. -/

namespace TemplateLang.Escaping

variable {c : RenderContext} {d : Data} {call : DirectiveCall} {step : Rewrite}

/-- The directive calls that do not cancel the escape, and the rewrites that they perform. -/
inductive Performs (c : RenderContext) (d : Data) : DirectiveCall → Rewrite → Prop
  | breakLines : Performs c d ⟨"|changeNewlineToBr", []⟩ .breakLines
  | cut {limit : Expr} {v : Value} {n : ℕ} (hv : c.evaluate d limit = .ok v)
    (hn : Directive.lengthArgument? v.toJson = some n) :
    Performs c d ⟨"|truncate", [limit]⟩ (.cut n true)
  | cutWith {limit ellipsis : Expr} {v w : Value} {n : ℕ} (hv : c.evaluate d limit = .ok v)
    (hn : Directive.lengthArgument? v.toJson = some n) (hw : c.evaluate d ellipsis = .ok w) :
    Performs c d ⟨"|truncate", [limit, ellipsis]⟩ (.cut n (Directive.isTruthy w.toJson))

theorem applyCall_defaultDirective (hc : c.registry = .full) (serial : ℕ) (site : String)
    (context : EscapeContext) (text : String) :
    c.applyCall serial site d text ⟨context.defaultDirective, []⟩ =
      .ok (escapeFor context text) := by
  cases context <;> rw [RenderContext.applyCall, hc] <;> rfl

theorem applyCall_of_performs (hc : c.registry = .full) (h : Performs c d call step)
    (serial : ℕ) (site text : String) :
    c.applyCall serial site d text call = .ok (String.ofList (step.apply text.toList)) := by
  have hregistry : ∀ call d, Registry.full.resolve call = .ok d → c.registry.resolve call = .ok d :=
    fun call d h => hc ▸ h
  cases h with
  | breakLines =>
    rw [RenderContext.applyCall, hregistry _ .changeNewlineToBr rfl]
    rfl
  | cut hv hn =>
    rw [RenderContext.applyCall, hregistry _ .truncate rfl]
    simp only [Except.mapError, ok_bind, Directive.interpreted?, Directive.applyTruncate,
      List.mapM_cons, List.mapM_nil, pure_bind, hv, hn]
    rfl
  | cutWith hv hn hw =>
    rw [RenderContext.applyCall, hregistry _ .truncate rfl]
    simp only [Except.mapError, ok_bind, Directive.interpreted?, Directive.applyTruncate,
      List.mapM_cons, List.mapM_nil, pure_bind, hv, hn, hw]
    rfl

/-- The text so far, as the calls of a print change it. -/
theorem foldlM_applyCall (hc : c.registry = .full) {calls : List DirectiveCall}
    {steps : List Rewrite} (h : List.Forall₂ (Performs c d) calls steps) (serial : ℕ)
    (site text : String) :
    calls.foldlM (c.applyCall serial site d) text =
      .ok (String.ofList (Rewrite.run steps text.toList)) := by
  induction h generalizing text with
  | nil => rw [Rewrite.run, String.ofList_toList]; rfl
  | cons hcall _ ih =>
    rw [List.foldlM_cons, applyCall_of_performs hc hcall, ok_bind, ih, String.toList_ofList]
    rfl

/-- An escaped print that is cut and whose lines are broken succeeds, and its text is safe exactly
when no divided unit is left. A text that is not safe has one fragment, near its end. -/
theorem renderPrint_safe_iff (hc : c.registry = .full) (serial : ℕ) (context : EscapeContext)
    {e : Expr} {v : Value} (hv : c.evaluate d e = .ok v) (hn : v.isNull = false)
    {calls : List DirectiveCall} {steps : List Rewrite}
    (h : List.Forall₂ (Performs c d) calls steps) :
    ∃ text, c.renderPrint serial d e (⟨context.defaultDirective, []⟩ :: calls) = .ok text ∧
      (Safe context text.toList ↔
        ¬ Rewrite.LeavesDivided context steps (escapeFor context v.text).toList) ∧
      (Safe context text.toList ∨ ∃ p, Broken context p text.toList) := by
  have hsafe := safe_escapeFor context v.text
  have hsettled := settled_escapeFor context v.text
  refine ⟨String.ofList (Rewrite.run steps (escapeFor context v.text).toList), ?_, ?_, ?_⟩
  · simp only [RenderContext.renderPrint, hv, ok_bind, hn, Bool.false_eq_true, if_false,
      List.foldlM_cons, applyCall_defaultDirective hc, foldlM_applyCall hc h]
  · rw [String.toList_ofList]
    exact (run_safe_iff steps _ hsettled).1 hsafe
  · rw [String.toList_ofList]
    exact run_safe_or_broken steps _ hsettled (.inl hsafe)

/-- A print of a literal, in a scope with nothing bound. -/
def printLiteral (context : EscapeContext) (value : String) (calls : List DirectiveCall) :
    Except RenderError String :=
  (⟨.new 0, ⟨[]⟩, .full, .empty⟩ : RenderContext).renderPrint 0 .empty (.str value)
    (⟨context.defaultDirective, []⟩ :: calls)

/-- A call of `|truncate` for `n` characters without an ellipsis. -/
def cutTo (n : ℤ) : DirectiveCall := ⟨"|truncate", [.number (.ofInt n), .bool false]⟩

/-- A cut inside a character reference removes the whole reference. -/
theorem printLiteral_reference_cut :
    printLiteral .html "a<b" [cutTo 3] = .ok "a" ∧
      ¬ Rewrite.LeavesDivided .html [.cut 3 false] (escapeFor .html "a<b").toList := by
  have hcut : Performs ⟨.new 0, ⟨[]⟩, .full, .empty⟩ .empty (cutTo 3) (.cut 3 false) :=
    .cutWith (n := 3) (w := .boolean false) rfl (by decide +kernel) rfl
  obtain ⟨text, htext, hiff, -⟩ := renderPrint_safe_iff rfl 0 .html (e := .str "a<b") rfl rfl
    (.cons hcut .nil)
  have ha : printLiteral .html "a<b" [cutTo 3] = .ok "a" := by decide +kernel
  refine ⟨ha, hiff.mp ?_⟩
  obtain rfl : text = "a" := Except.ok.inj (htext.symm.trans ha)
  exact (SafeUnit.htmlPlain (by decide)).safe

/-- In every context a cut can leave a fragment, as the backslash that takes the closing quote of
a JavaScript string along. -/
theorem printLiteral_fragments :
    (printLiteral .jsString "it's" [cutTo 3] = .ok "it\\" ∧ ¬ Safe .jsString "it\\".toList) ∧
      (printLiteral .uri "a b" [cutTo 2] = .ok "a%" ∧ ¬ Safe .uri "a%".toList) ∧
      printLiteral .html "a\nb" [⟨"|changeNewlineToBr", []⟩, cutTo 3] = .ok "a<b" ∧
        ¬ Safe .html "a<b".toList := by
  have hjs : Broken .jsString 2 "it\\".toList :=
    ⟨['i', 't'], ['\\'], 0, rfl, rfl,
      .cons (.jsPlain (by decide)) (SafeUnit.jsPlain (by decide)).safe, ['\\', '\''],
      .jsSimple (by decide), by decide, by decide, by decide, by decide⟩
  have huri : Broken .uri 1 "a%".toList :=
    ⟨['a'], ['%'], 0, rfl, rfl, (SafeUnit.uriPlain (by decide)).safe,
      ['%', '2', '0'], .uriTriple (by decide) (by decide), by decide, by decide, by decide,
      by decide⟩
  have hhtml : Broken .html 1 "a<b".toList :=
    ⟨['a'], ['<', 'b'], 0, rfl, rfl, (SafeUnit.htmlPlain (by decide)).safe,
      ['<', 'b', 'r', '>'], .htmlBreak, by decide, by decide, by decide, by decide⟩
  exact ⟨⟨by decide +kernel, hjs.not_safe⟩, ⟨by decide +kernel, huri.not_safe⟩,
    by decide +kernel, hhtml.not_safe⟩

end TemplateLang.Escaping
