import TemplateLang.Proofs.Direction.Literals
import TemplateLang.Proofs.Name.Definitions
import TemplateLang.Render.Renderer

/-! Rendering with other expressions of the same values. Without a bundle, a tree and one whose
expressions have the same values in a scope are rendered alike: to the same text, or with the same
error at the same node, which may quote another source. By induction on views bodies are alike, and
by induction on the open templates so are templates. Folding helpers in the direction of a scope is
such a change of expressions. -/

namespace TemplateLang

variable {f : Expr → Expr} {t t' : Tree} {n : NodeRef} {dir : Direction}

/-- An error without the template source that it quotes. -/
def RenderError.unquoted : RenderError → RenderError
  | .runtime node (.nullPrint _ _) => .runtime node (.nullPrint "" "")
  | .compile e => .compile e.unquoted
  | e => e

/-- Both renderings give the same text, or fail with the same error at the same node, but for the
template source that it quotes. -/
abbrev Alike (x y : Except RenderError String) : Prop := AlikeUpTo RenderError.unquoted x y

theorem Expr.eval_substHelpers {s : Scope} (hs : s.direction = .ok dir) (d : Data) (e : Expr) :
    (e.substHelpers (BidiFn.fold dir)).eval s d = e.eval s d := by
  induction e with
  | bidi f =>
    rw [substHelpers, eval, hs]
    cases f <;> rfl
  | not e ih => rw [substHelpers, eval, eval, ih]
  | eq left right ihl ihr => rw [substHelpers, eval, eval, ihl, ihr]
  | _ => rfl

namespace RenderContext

variable {c c' : RenderContext} {call call' : View → Data → Except RenderError String} {d : Data}

/-- Bodies are rendered alike when each of their nodes is. -/
theorem alike_renderNodes {vs : List View}
    (hvs : ∀ v ∈ vs, Alike (c.renderNode call d v) (c'.renderNode call' d (v.mapExprs f))) :
    Alike (c.renderNodes call d vs) (c'.renderNodes call' d (vs.map (View.mapExprs f))) := by
  induction vs with
  | nil => exact .refl _
  | cons v vs ih =>
    rw [List.map_cons, RenderContext.renderNodes, RenderContext.renderNodes]
    have hrest := ih fun w hw => hvs w (List.mem_cons_of_mem _ hw)
    exact (hvs v (List.mem_cons_self ..)).bind fun text => hrest.bind fun texts => .refl _

/-- Contexts without messages in which `f` keeps the values of expressions, with renderings of
templates that are alike. -/
structure SameValues (f : Expr → Expr) (c c' : RenderContext)
    (call call' : View → Data → Except RenderError String) : Prop where
  registry : c'.registry = c.registry
  templates : c'.templates = c.templates
  noBundle : c.scope.msgBundle = .ok none
  noBundle' : c'.scope.msgBundle = .ok none
  value : ∀ d e, c'.evaluate d (f e) = c.evaluate d e
  calls : ∀ name n, c.templates.get? name = some n → ∀ d,
    Alike (call (c.tree.view n) d) (call' (c'.tree.view n) d)

namespace SameValues

/-! ### Prints and calls -/

theorem applyCall (h : SameValues f c c' call call') (serial : ℕ) (site site' text : String)
    (directive : DirectiveCall) :
    Alike (c.applyCall serial site d text directive)
      (c'.applyCall serial site' d text (directive.mapArgs f)) := by
  rw [RenderContext.applyCall, RenderContext.applyCall, h.registry, Registry.resolve_mapArgs]
  refine AlikeUpTo.bind ?_ fun found => ?_
  · cases c.registry.resolve directive with
    | error e =>
      refine .error (congrArg RenderError.compile ?_)
      rw [CompileError.unquoted_atSite, CompileError.unquoted_atSite]
    | ok found => exact .refl _
  · cases found.interpreted? with
    | none => exact .refl _
    | some apply =>
      have hargs : ((directive.mapArgs f).args.mapM fun e => do
          return (← c'.evaluate d e).toJson) =
          directive.args.mapM fun e => do return (← c.evaluate d e).toJson := by
        rw [DirectiveCall.mapArgs, List.mapM_map]
        simp only [Function.comp_def, h.value]
      simp only [hargs]
      exact .refl _

theorem foldlM_applyCall (h : SameValues f c c' call call') (serial : ℕ)
    (site site' text : String) (directives : List DirectiveCall) :
    Alike (directives.foldlM (c.applyCall serial site d) text)
      ((directives.map (DirectiveCall.mapArgs f)).foldlM (c'.applyCall serial site' d) text) := by
  induction directives generalizing text with
  | nil => exact .refl _
  | cons directive directives ih =>
    rw [List.map_cons, List.foldlM_cons, List.foldlM_cons]
    exact (h.applyCall serial site site' text directive).bind ih

theorem renderPrint (h : SameValues f c c' call call') (serial : ℕ) (e : Expr)
    (directives : List DirectiveCall) :
    Alike (c.renderPrint serial d e directives)
      (c'.renderPrint serial d (f e) (directives.map (DirectiveCall.mapArgs f))) := by
  rw [RenderContext.renderPrint, RenderContext.renderPrint, h.value]
  refine AlikeUpTo.bind_same _ fun value => ?_
  by_cases hnull : value.isNull
  · rw [if_pos hnull, if_pos hnull]
    exact .error rfl
  · rw [if_neg hnull, if_neg hnull]
    exact h.foldlM_applyCall serial _ _ _ directives

theorem renderCall (h : SameValues f c c' call call') (callee : String) (passesData : Bool) :
    Alike (c.renderCall call d callee passesData) (c'.renderCall call' d callee passesData) := by
  rw [RenderContext.renderCall, RenderContext.renderCall, h.templates]
  cases hn : c.templates.get? callee with
  | none => exact .refl _
  | some n => exact h.calls callee n hn _

/-! ### Bodies -/

theorem renderBranches (h : SameValues f c c' call call') {vs : List View}
    (hvs : ∀ v ∈ vs, Alike (c.renderNodes call d v.children)
      (c'.renderNodes call' d (v.children.map (View.mapExprs f)))) (first : Bool) :
    Alike (c.renderBranches call d first vs)
      (c'.renderBranches call' d first (vs.map (View.mapExprs f))) := by
  induction vs generalizing first with
  | nil => exact .refl _
  | cons v vs ih =>
    have hrest := ih fun w hw => hvs w (List.mem_cons_of_mem _ hw)
    have hbody := hvs v (List.mem_cons_self ..)
    obtain ⟨ref, serial, kind, children⟩ := v
    rw [List.map_cons, View.mapExprs]
    cases kind with
    | branch condition =>
      rw [NodeKind.mapExprs, RenderContext.renderBranches, RenderContext.renderBranches, h.value]
      refine AlikeUpTo.bind_same _ fun value => ?_
      by_cases htrue : value.truth
      · rw [if_pos htrue, if_pos htrue]
        exact hbody
      · rw [if_neg htrue, if_neg htrue]
        exact hrest false
    | otherwise =>
      simp only [NodeKind.mapExprs, RenderContext.renderBranches]
      cases first with
      | true => exact .refl _
      | false => exact hbody
    | _ => exact .refl _

/-- A node and the body below it are rendered alike. -/
theorem renderNode (h : SameValues f c c' call call') (v : View) :
    Alike (c.renderNode call d v) (c'.renderNode call' d (v.mapExprs f)) ∧
      Alike (c.renderNodes call d v.children)
        (c'.renderNodes call' d (v.children.map (View.mapExprs f))) := by
  induction v using View.induction with
  | node ref serial kind children ih =>
    have hbody := alike_renderNodes fun v hv => (ih v hv).1
    refine ⟨?_, hbody⟩
    rw [View.mapExprs]
    cases kind with
    | print e directives escape =>
      rw [NodeKind.mapExprs, RenderContext.renderNode, RenderContext.renderNode]
      exact h.renderPrint serial e directives
    | cond =>
      simp only [NodeKind.mapExprs, RenderContext.renderNode]
      exact h.renderBranches (fun v hv => (ih v hv).2) true
    | msg key desc =>
      simp only [NodeKind.mapExprs, RenderContext.renderNode, h.noBundle, h.noBundle']
      exact hbody
    | call callee passesData =>
      simp only [NodeKind.mapExprs, RenderContext.renderNode]
      exact h.renderCall callee passesData
    | _ => exact .refl _

end SameValues

/-! ### Templates -/

/-- Templates are rendered alike, however many of them may be open at once. -/
theorem alike_renderTemplate (h : t.MapsExprs f t') (hc : t.Consistent) {s : Scope}
    (hnone : s.msgBundle = .ok none) (hvalue : ∀ d e, Expr.eval s d (f e) = e.eval s d)
    {templates : TemplateSet}
    (hreach : ∀ name n, templates.get? name = some n → t.Reaches Tree.root n)
    (registry : Registry) (budget : ℕ) (hn : t.Reaches Tree.root n) (d : Data) :
    Alike
      ((⟨t, templates, registry, s⟩ : RenderContext).renderTemplate budget (t.view n) d)
      ((⟨t', templates, registry, s⟩ : RenderContext).renderTemplate budget (t'.view n) d) := by
  induction budget generalizing n d with
  | zero =>
    rw [renderTemplate, renderTemplate, Tree.serial_view, Tree.serial_view, h.shape.serial]
    exact .refl _
  | succ budget ih =>
    have hsame : SameValues f ⟨t, templates, registry, s⟩ ⟨t', templates, registry, s⟩
        (renderTemplate ⟨t, templates, registry, s⟩ budget)
        (renderTemplate ⟨t', templates, registry, s⟩ budget) :=
      ⟨rfl, rfl, hnone, hnone,
        fun d e => congrArg (Except.mapError RenderError.compile) (hvalue d e),
        fun name m hm d => ih (hreach name m hm) d⟩
    rw [renderTemplate, renderTemplate, h.view hc hn, View.children_mapExprs]
    exact (hsame.renderNode (t.view n)).2

end RenderContext

/-! ### Renderers -/

namespace Renderer

/-- Without a bundle both renderers render every template alike, in every scope, and leave the
same scope. -/
def RendersAlike (r r' : Renderer) : Prop :=
  ∀ name d s, Alike (r.renderInScope name d none s).1 (r'.renderInScope name d none s).1 ∧
    (r'.renderInScope name d none s).2 = (r.renderInScope name d none s).2

/-- Both trees are refused with the same error, but for the template source that it quotes, or
accepted, and then rendered alike within every namespace. -/
inductive BuiltAlike : Except CompileError Renderer → Except CompileError Renderer → Prop
  | refused {e e' : CompileError} (h : e.unquoted = e'.unquoted) : BuiltAlike (.error e) (.error e')
  | built {r r' : Renderer}
    (h : ∀ ns, RendersAlike (r.forNamespace ns) (r'.forNamespace ns)) : BuiltAlike (.ok r) (.ok r')

section

variable {r : Renderer} {policy : OverridePolicy}

/-- A frame for a rendering without a bundle has the direction that is set. -/
theorem renderWithFrame_alike (h : r.tree.MapsExprs f t') (hc : r.tree.Consistent)
    (hvalue : ∀ s : Scope, s.direction = .ok (.resolve r.bidiDir none) →
      ∀ d e, Expr.eval s d (f e) = e.eval s d)
    (hreach : ∀ name n, r.templates.get? name = some n → r.tree.Reaches Tree.root n)
    (hn : r.tree.Reaches Tree.root n) (d : Data) (s : Scope) :
    Alike (r.renderWithFrame n d none s).1
        (({ r with tree := t' } : Renderer).renderWithFrame n d none s).1 ∧
      (({ r with tree := t' } : Renderer).renderWithFrame n d none s).2 =
        (r.renderWithFrame n d none s).2 := by
  obtain ⟨frame, generation⟩ := s
  cases frame with
  | some frame => exact ⟨.refl _, rfl⟩
  | none =>
    let seeded : Scope := ⟨some (Scope.sharedBindings none r.bidiDir).reverse, generation + 1⟩
    exact ⟨RenderContext.alike_renderTemplate h hc (s := seeded) rfl (hvalue seeded rfl) hreach
      r.registry callDepthLimit hn d, rfl⟩

theorem rendersAlike (h : r.tree.MapsExprs f t') (hc : r.tree.Consistent)
    (hvalue : ∀ s : Scope, s.direction = .ok (.resolve r.bidiDir none) →
      ∀ d e, Expr.eval s d (f e) = e.eval s d)
    (hset : TemplateSet.resolve r.tree policy = .ok r.templates) :
    RendersAlike r { r with tree := t' } := by
  have hreach : ∀ name n, r.templates.get? name = some n → r.tree.Reaches Tree.root n := by
    intro name n hn
    obtain ⟨file, hfile, hn⟩ := List.mem_flatMap.mp (TemplateSet.mem_of_resolve hset hn)
    exact .child (.of_parent ((hc.mem_children Tree.root file).mp hfile))
      ((hc.mem_children file n).mp hn)
  intro name d s
  have hname : ({ r with tree := t' } : Renderer).resolveName name = r.resolveName name := rfl
  rw [renderInScope, renderInScope, hname]
  cases r.resolveName name with
  | error e => exact ⟨.refl _, rfl⟩
  | ok full =>
    cases hn : r.templates.get? full with
    | none =>
      simp only [hn]
      exact ⟨.refl _, trivial⟩
    | some n =>
      simp only [hn]
      exact renderWithFrame_alike h hc hvalue hreach (hreach full n hn) d s

end

/-- Trees of the same values make renderers alike. -/
theorem builtAlike (h : t.MapsExprs f t') (hc : t.Consistent) {bidiDir : Int}
    (hvalue : ∀ s : Scope, s.direction = .ok (.resolve bidiDir none) →
      ∀ d e, Expr.eval s d (f e) = e.eval s d)
    (registry : Registry) (policy : OverridePolicy) :
    BuiltAlike (ofTree t registry bidiDir policy) (ofTree t' registry bidiDir policy) := by
  have hprepare := h.prepare hc registry (some .interpreter)
  rw [ofTree, ofTree]
  rcases hp : t.prepare registry (some .interpreter) with ⟨result, prepared⟩
  rcases hp' : t'.prepare registry (some .interpreter) with ⟨result', prepared'⟩
  rw [hp, hp'] at hprepare
  obtain ⟨hresult, hmaps⟩ := hprepare
  rcases hresult.cases with ⟨_, rfl, rfl⟩ | ⟨e, e', rfl, rfl, he⟩
  · have hcp := (Tree.sameShape_prepare hp).consistent hc
    simp only [hmaps.resolve_eq policy]
    cases hset : TemplateSet.resolve prepared policy with
    | error e => exact .refused rfl
    | ok templates =>
      exact .built fun ns =>
        let r : Renderer := ⟨prepared, templates, registry, bidiDir, none⟩
        rendersAlike (r := r.forNamespace ns) hmaps hcp hvalue hset
  · exact .refused he

end Renderer

namespace Tree

/-- What folding the helpers of a tree in a direction gives: their number, and a tree in which
literals stand for them and which means the same in that direction. -/
structure FoldsTo (dir : Direction) (t : Tree) (count : ℕ) (t' : Tree) : Prop where
  count_eq : count = t.helperCount
  maps : t.MapsExprs (Expr.substHelpers (BidiFn.fold dir)) t'
  free : t'.HelperFree
  again : ∀ s dir', Scope.direction s = .ok dir' → t'.optimizeBidi s = (.ok 0, t')
  resolve_eq : ∀ policy, TemplateSet.resolve t' policy = TemplateSet.resolve t policy
  renders : ∀ policy templates registry bidiDir ns, Direction.resolve bidiDir none = dir →
    TemplateSet.resolve t policy = .ok templates →
      Renderer.RendersAlike ⟨t, templates, registry, bidiDir, ns⟩
        ⟨t', templates, registry, bidiDir, ns⟩
  builds : ∀ policy registry bidiDir, Direction.resolve bidiDir none = dir →
    Renderer.BuiltAlike (Renderer.ofTree t registry bidiDir policy)
      (Renderer.ofTree t' registry bidiDir policy)

/-- Folding in the direction of a frame keeps the meaning of a tree in that direction. -/
theorem optimizeBidi_preserves_meaning (h : t.Formed) {s : Scope} (hs : s.direction = .ok dir) :
    ∃ count t', t.optimizeBidi s = (.ok count, t') ∧ FoldsTo dir t count t' := by
  have hmaps := h.mapsExprs_foldDirection dir
  have hfree := h.helperFree_foldDirection dir
  have hvalue : ∀ bidiDir, Direction.resolve bidiDir none = dir → ∀ s : Scope,
      s.direction = .ok (.resolve bidiDir none) → ∀ (d : Data) (e : Expr),
        (e.substHelpers (BidiFn.fold dir)).eval s d = e.eval s d := by
    rintro bidiDir rfl s hs d e
    exact Expr.eval_substHelpers hs d e
  refine ⟨t.helperCount, (t.foldDirection dir).2, ?_, rfl, hmaps, hfree, fun s dir' hs' => ?_,
    hmaps.resolve_eq, fun policy templates registry bidiDir ns hdir hset => ?_,
    fun policy registry bidiDir hdir => ?_⟩
  · rw [optimizeBidi, hs]
    exact Prod.ext (congrArg Except.ok (h.foldDirection_fst dir)) rfl
  · rw [optimizeBidi, hs']
    simp only [hfree.foldDirection_eq (h.foldDirection dir)]
  · exact Renderer.rendersAlike (r := ⟨t, templates, registry, bidiDir, ns⟩) hmaps h.consistent
      (hvalue bidiDir hdir) hset
  · exact Renderer.builtAlike hmaps h.consistent (hvalue bidiDir hdir) registry policy

/-- The page has a helper among the arguments of a directive. -/
theorem optimizeBidi_preserves_meaning_page :
    ∃ t', page.optimizeBidi ⟨some [.bidiGlobalDir .rtl], 1⟩ = (.ok 1, t') ∧
      FoldsTo .rtl page 1 t' := by
  have hcount : page.helperCount = 1 := by decide +kernel
  have hdirection : Scope.direction ⟨some [.bidiGlobalDir .rtl], 1⟩ = .ok .rtl := rfl
  obtain ⟨count, t', hrun, hfolds⟩ :=
    optimizeBidi_preserves_meaning (loaded_of_load load_pageText).toFormed hdirection
  obtain rfl : count = 1 := hfolds.count_eq.trans hcount
  exact ⟨t', hrun, hfolds⟩

end Tree

end TemplateLang
