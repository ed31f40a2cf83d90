import TemplateLang.Prepare
import TemplateLang.Proofs.Name.TemplateSet
import TemplateLang.Proofs.Tree.Scopes

/-! Trees that differ in expressions only. One function is applied to every expression that the
nodes reached from the root carry: printed expressions, arguments of directives and conditions. A
pass that asks for none of them does the same in both trees, and so the same templates are in
effect and both are prepared alike, up to the sources of prints that errors quote. -/

namespace TemplateLang

variable {f : Expr → Expr}

/-! ### Calls of directives -/

/-- A call with `f` applied to its arguments. -/
def DirectiveCall.mapArgs (f : Expr → Expr) (call : DirectiveCall) : DirectiveCall :=
  ⟨call.name, call.args.map f⟩

theorem Registry.resolve_mapArgs (registry : Registry) (call : DirectiveCall) :
    registry.resolve (call.mapArgs f) = registry.resolve call := by
  rw [resolve, resolve, DirectiveCall.mapArgs, List.length_map]

theorem cancelsEscape_mapArgs (registry : Registry) (calls : List DirectiveCall) :
    cancelsEscape registry (calls.map (DirectiveCall.mapArgs f)) =
      cancelsEscape registry calls := by
  induction calls with
  | nil => rfl
  | cons call calls ih =>
    rw [List.map_cons, cancelsEscape, cancelsEscape, ih]
    rfl

/-- An error without the source of the print that it comes from. -/
def CompileError.unquoted : CompileError → CompileError
  | .unknownDirective name _ => .unknownDirective name none
  | .arity name expected found _ => .arity name expected found none
  | e => e

theorem CompileError.unquoted_atSite (site : String) (e : CompileError) :
    (e.atSite site).unquoted = e.unquoted := by cases e <;> rfl

/-! ### Nodes -/

namespace NodeKind

/-- The expressions that a node carries. -/
def exprs : NodeKind → List Expr
  | .print e calls _ => e :: calls.flatMap DirectiveCall.args
  | .branch condition => [condition]
  | _ => []

/-- A kind with `f` applied to its expressions. -/
def mapExprs (f : Expr → Expr) : NodeKind → NodeKind
  | .print e calls escape => .print (f e) (calls.map (DirectiveCall.mapArgs f)) escape
  | .branch condition => .branch (f condition)
  | kind => kind

theorem exprs_mapExprs (f : Expr → Expr) (k : NodeKind) : (k.mapExprs f).exprs = k.exprs.map f := by
  cases k with
  | print e calls escape =>
    rw [mapExprs, exprs, exprs, List.map_cons, List.flatMap_map, List.map_flatMap]
    rfl
  | _ => rfl

theorem mapExprs_eq_self {k : NodeKind} (h : ∀ e ∈ k.exprs, f e = e) : k.mapExprs f = k := by
  cases k with
  | print e calls escape =>
    rw [exprs, List.forall_mem_cons] at h
    have hcall : ∀ call ∈ calls, call.mapArgs f = id call := fun call hc => by
      have harg : ∀ e ∈ call.args, f e = id e := fun e he =>
        h.2 e (List.mem_flatMap.mpr ⟨call, hc, he⟩)
      rw [DirectiveCall.mapArgs, List.map_congr_left harg, List.map_id]
      rfl
    rw [mapExprs, h.1, List.map_congr_left hcall, List.map_id]
  | branch condition => exact congrArg branch (h condition (List.mem_singleton_self _))
  | _ => rfl

theorem insertEscape_mapExprs (registry : Registry) (count : Insertions) (k : NodeKind) :
    (k.mapExprs f).insertEscape registry count =
      ((k.insertEscape registry count).1, (k.insertEscape registry count).2.mapExprs f) := by
  cases k with
  | print e calls escape =>
    rcases count with error | count
    · rfl
    · cases escape with
      | none => rfl
      | some context =>
        rw [mapExprs, insertEscape, insertEscape, cancelsEscape_mapArgs]
        rcases cancelsEscape registry calls with error | cancelled
        · rfl
        · cases cancelled <;> rfl
  | _ => cases count <;> rfl

end NodeKind

/-! ### Views -/

namespace View

variable {σ : Type} {enters : NodeKind → Bool} {step : σ → NodeKind → σ × NodeKind}

/-- A view with `f` applied to all expressions. -/
def mapExprs (f : Expr → Expr) : View → View
  | .node ref serial kind children =>
    .node ref serial (kind.mapExprs f) (children.map (mapExprs f))

@[simp] theorem ref_mapExprs (f : Expr → Expr) (v : View) : (v.mapExprs f).ref = v.ref := by
  cases v
  rw [mapExprs]
  rfl

@[simp] theorem kind_mapExprs (f : Expr → Expr) (v : View) :
    (v.mapExprs f).kind = v.kind.mapExprs f := by
  cases v
  rw [mapExprs]
  rfl

@[simp] theorem children_mapExprs (f : Expr → Expr) (v : View) :
    (v.mapExprs f).children = v.children.map (mapExprs f) := by
  cases v
  rw [mapExprs]
  rfl

theorem nodesWhere_mapExprs (v : View) (henters : ∀ k, enters (k.mapExprs f) = enters k) :
    (v.mapExprs f).nodesWhere enters = (v.nodesWhere enters).map (mapExprs f) := by
  induction v using View.induction with
  | node ref serial kind children ih =>
    rw [mapExprs, nodesWhere, nodesWhere, henters, List.map_cons, mapExprs,
      listNodesWhere_eq_flatMap, listNodesWhere_eq_flatMap]
    by_cases he : enters kind
    · rw [if_pos he, if_pos he, List.flatMap_map, List.map_flatMap, List.flatMap_congr ih]
    · rw [if_neg he, if_neg he, List.map_nil]

theorem nodes_mapExprs (f : Expr → Expr) (v : View) :
    (v.mapExprs f).nodes = v.nodes.map (mapExprs f) := v.nodesWhere_mapExprs fun _ => rfl

theorem mapKindsList_mapExprs {vs : List View}
    (hvs : ∀ v ∈ vs, ∀ s, (v.mapExprs f).mapKinds enters step s =
      ((v.mapKinds enters step s).1, (v.mapKinds enters step s).2.mapExprs f)) (s : σ) :
    mapKindsList enters step s (vs.map (mapExprs f)) =
      ((mapKindsList enters step s vs).1, (mapKindsList enters step s vs).2.map (mapExprs f)) := by
  induction vs generalizing s with
  | nil => rfl
  | cons v vs ih =>
    rw [List.map_cons, mapKindsList_cons, hvs v (List.mem_cons_self ..),
      ih fun w hw => hvs w (List.mem_cons_of_mem _ hw)]
    rfl

/-- A pass that asks for no expression does the same whichever they are. -/
theorem mapKinds_mapExprs (henters : ∀ k, enters (k.mapExprs f) = enters k)
    (hstep : ∀ s k, step s (k.mapExprs f) = ((step s k).1, (step s k).2.mapExprs f)) (s : σ)
    (v : View) :
    (v.mapExprs f).mapKinds enters step s =
      ((v.mapKinds enters step s).1, (v.mapKinds enters step s).2.mapExprs f) := by
  induction v using View.induction generalizing s with
  | node ref serial kind children ih =>
    rw [mapExprs, mapKinds_node, mapKinds_node, henters, hstep]
    by_cases he : enters kind
    · rw [if_pos he, if_pos he, mapKindsList_mapExprs ih, mapExprs]
    · rw [if_neg he, if_neg he, mapExprs]

end View

/-! ### Trees -/

namespace Tree

variable {t t' : Tree} {n : NodeRef}

/-- The second tree is the first with `f` applied to the expressions of all that its root
reaches. -/
structure MapsExprs (f : Expr → Expr) (t t' : Tree) : Prop where
  shape : SameShape t t'
  fresh : t'.fresh = t.fresh
  kind : ∀ n, t.Reaches root n → t'.kind n = (t.kind n).mapExprs f
  kind_apart : ∀ n, ¬ t.Reaches root n → t'.kind n = t.kind n

namespace MapsExprs

theorem setKind (h : MapsExprs f t t') (hn : t.Reaches root n) (k : NodeKind) :
    MapsExprs f (t.setKind n k) (t'.setKind n (k.mapExprs f)) := by
  have hs := sameShape_setKind t n k
  refine ⟨hs.symm.trans (h.shape.trans (sameShape_setKind t' n _)), h.fresh,
    fun x hx => ?_, fun x hx => ?_⟩
  · rw [hs.reaches] at hx
    simp only [kind_setKind, h.shape.has, h.kind x hx]
    split_ifs <;> rfl
  · rw [hs.reaches] at hx
    have hne : x ≠ n := fun he => hx (he ▸ hn)
    rw [kind_setKind, kind_setKind, if_neg fun he => hne he.1, if_neg fun he => hne he.1,
      h.kind_apart x hx]

theorem foldl_setKind (h : MapsExprs f t t') {ws : List View}
    (hws : ∀ w ∈ ws, t.Reaches root w.ref) :
    MapsExprs f (ws.foldl (fun t w => t.setKind w.ref w.kind) t)
      ((ws.map (View.mapExprs f)).foldl (fun t w => t.setKind w.ref w.kind) t') := by
  induction ws generalizing t t' with
  | nil => exact h
  | cons w ws ih =>
    rw [List.map_cons, List.foldl_cons, List.foldl_cons, View.ref_mapExprs, View.kind_mapExprs]
    refine ih (h.setKind (hws w (List.mem_cons_self ..)) w.kind) fun u hu => ?_
    rw [(sameShape_setKind t w.ref w.kind).reaches]
    exact hws u (List.mem_cons_of_mem _ hu)

/-- A reachable node shows the same in both trees but for the expressions. -/
theorem view (h : MapsExprs f t t') (hc : t.Consistent) (hn : t.Reaches root n) :
    t'.view n = (t.view n).mapExprs f := by
  induction n using hc.children_induction with
  | step n ih =>
    rw [hc.view_eq n, (h.shape.consistent hc).view_eq n, View.mapExprs, h.kind n hn,
      h.shape.serial, h.shape.children, List.map_map]
    exact congrArg _ (List.map_congr_left fun c hm =>
      ih c hm (hn.child ((hc.mem_children n c).mp hm)))

theorem mapKinds {σ : Type} {enters : NodeKind → Bool} {step : σ → NodeKind → σ × NodeKind}
    (h : MapsExprs f t t') (hc : t.Consistent)
    (henters : ∀ k, enters (k.mapExprs f) = enters k)
    (hstep : ∀ s k, step s (k.mapExprs f) = ((step s k).1, (step s k).2.mapExprs f)) (s : σ) :
    (t'.mapKinds enters step s).1 = (t.mapKinds enters step s).1 ∧
      MapsExprs f (t.mapKinds enters step s).2 (t'.mapKinds enters step s).2 := by
  have hview := View.mapKinds_mapExprs henters hstep s (t.view root)
  rw [← h.view hc .refl] at hview
  change ((t'.view root).mapKinds enters step s).1 = ((t.view root).mapKinds enters step s).1 ∧
    MapsExprs f (t.withKinds ((t.view root).mapKinds enters step s).2)
      (t'.withKinds ((t'.view root).mapKinds enters step s).2)
  rw [hview, withKinds, withKinds, View.nodes_mapExprs]
  refine ⟨rfl, h.foldl_setKind fun w hw => ?_⟩
  obtain ⟨u, hu, href, -⟩ := View.exists_of_mem_nodes_mapKinds hw
  obtain ⟨x, hx, rfl⟩ := hc.mem_nodes_view.mp hu
  rwa [href, ref_view]

/-- The same templates are in effect. -/
theorem resolve_eq (h : MapsExprs f t t') (policy : OverridePolicy) :
    TemplateSet.resolve t' policy = TemplateSet.resolve t policy := by
  have hinsert : TemplateSet.insertNode t' policy = TemplateSet.insertNode t policy := by
    funext s n
    rw [TemplateSet.insertNode, TemplateSet.insertNode]
    by_cases hn : t.Reaches root n
    · rw [h.kind n hn]
      cases t.kind n <;> rfl
    · rw [h.kind_apart n hn]
  rw [TemplateSet.resolve, TemplateSet.resolve, h.shape.files_eq, hinsert]

/-! ### Preparation -/

theorem qualifyNames (h : MapsExprs f t t') (hc : t.Consistent) :
    MapsExprs f t.qualifyNames t'.qualifyNames :=
  (h.mapKinds hc (fun k => by cases k <;> rfl) (fun s k => by cases k <;> rfl) "").2

theorem markEscapingSites (h : MapsExprs f t t') (hc : t.Consistent) :
    MapsExprs f t.markEscapingSites t'.markEscapingSites := by
  refine (h.mapKinds hc (fun k => by cases k <;> rfl) (fun s k => ?_) false).2
  cases k with
  | print e calls escape => cases escape <;> rfl
  | _ => rfl

theorem insertEscapes (h : MapsExprs f t t') (hc : t.Consistent) (registry : Registry) :
    (t'.insertEscapes registry).1 = (t.insertEscapes registry).1 ∧
      MapsExprs f (t.insertEscapes registry).2 (t'.insertEscapes registry).2 := by
  have henters : ∀ k : NodeKind, (!(k.mapExprs f).isPrint) = !k.isPrint :=
    fun k => by cases k <;> rfl
  exact h.mapKinds hc henters (NodeKind.insertEscape_mapExprs registry) (.ok 0)

theorem filePathOf (h : MapsExprs f t t') (n : NodeRef) : t'.filePathOf n = t.filePathOf n := by
  rw [Tree.filePathOf, Tree.filePathOf, h.shape.path]
  refine congrArg (List.findSome? · _) (funext fun a => ?_)
  by_cases ha : t.Reaches root a
  · rw [h.kind a ha]
    cases t.kind a <;> rfl
  · rw [h.kind_apart a ha]

theorem checkOverrides (h : MapsExprs f t t') (hc : t.Consistent) :
    t'.checkOverrides = t.checkOverrides := by
  have hcheck : ∀ seen v, t'.checkOverride seen (v.mapExprs f) = t.checkOverride seen v := by
    intro seen v
    rw [checkOverride, checkOverride, View.kind_mapExprs, View.ref_mapExprs]
    cases v.kind with
    | template name isOverride autoescape =>
      simp only [NodeKind.mapExprs, duplicateError, h.filePathOf]
    | _ => rfl
  have hholds : ∀ k : NodeKind, (k.mapExprs f).holdsTemplates = k.holdsTemplates :=
    fun k => by cases k <;> rfl
  rw [Tree.checkOverrides, Tree.checkOverrides, h.view hc .refl,
    View.nodesWhere_mapExprs _ hholds, List.foldlM_map]
  simp only [hcheck]

theorem checkCall (h : MapsExprs f t t') (registry : Registry) (backend : Option Backend)
    (n : NodeRef) (call : DirectiveCall) :
    AlikeUpTo CompileError.unquoted (t.checkCall registry backend n call)
      (t'.checkCall registry backend n (call.mapArgs f)) := by
  rw [Tree.checkCall, Tree.checkCall, Registry.resolve_mapArgs]
  refine AlikeUpTo.bind ?_ fun directive => ?_
  · cases registry.resolve call with
    | error e => exact .error (by rw [CompileError.unquoted_atSite, CompileError.unquoted_atSite])
    | ok directive => exact .refl _
  · rw [h.shape.serial]
    exact .refl _

theorem checkDirectives (h : MapsExprs f t t') (hc : t.Consistent) (registry : Registry)
    (backend : Option Backend) :
    AlikeUpTo CompileError.unquoted (t.checkDirectives registry backend)
      (t'.checkDirectives registry backend) := by
  rw [Tree.checkDirectives, Tree.checkDirectives, h.view hc .refl,
    View.nodesWhere_mapExprs _ fun k => by cases k <;> rfl]
  refine AlikeUpTo.forM_map fun v _ => ?_
  rw [checkNode, checkNode, View.kind_mapExprs, View.ref_mapExprs]
  cases v.kind with
  | print e calls escape =>
    exact AlikeUpTo.forM_map fun call _ => h.checkCall registry backend v.ref call
  | _ => exact .refl _

/-- Trees that differ in expressions are prepared alike. -/
theorem prepare (h : MapsExprs f t t') (hc : t.Consistent) (registry : Registry)
    (backend : Option Backend) :
    AlikeUpTo CompileError.unquoted (t.prepare registry backend).1
        (t'.prepare registry backend).1 ∧
      MapsExprs f (t.prepare registry backend).2 (t'.prepare registry backend).2 := by
  have hnames := h.qualifyNames hc
  have hcn : t.qualifyNames.Consistent := (sameShape_mapKinds t _ _ _).consistent hc
  have hmarks := hnames.markEscapingSites hcn
  have hcm : t.qualifyNames.markEscapingSites.Consistent :=
    (sameShape_mapKinds t.qualifyNames _ _ _).consistent hcn
  obtain ⟨hcount, hescapes⟩ := hmarks.insertEscapes hcm registry
  unfold Tree.prepare
  simp only [hnames.checkOverrides hcn]
  cases t.qualifyNames.checkOverrides with
  | error e => exact ⟨.refl _, hnames⟩
  | ok _ =>
    rcases (hnames.checkDirectives hcn registry backend).cases with
      ⟨_, hcheck, hcheck'⟩ | ⟨e, e', hcheck, hcheck', he⟩
    · simp only [hcheck, hcheck', hcount]
      exact ⟨.refl _, hescapes⟩
    · simp only [hcheck, hcheck']
      exact ⟨.error he, hnames⟩

end MapsExprs

end Tree

end TemplateLang
