import TemplateLang.Proofs.Direction.Folded
import TemplateLang.Proofs.Tree.Shape
import TemplateLang.Target.Emission

/-! How emission ends. Where everything stands where it may and no helper depends on the direction
any more, the outcome does not depend on what is written: it is that of looking up, in order of
the source, the directives of the prints in the templates in effect. -/

namespace TemplateLang

variable {ns site : String} {node : ℕ} {vs : List View} {v : View} {e : Expr}
  {calls : List DirectiveCall} {first : Bool}

namespace View

/-- Below a node of level `leaf` nothing stands. -/
theorem Shaped.children_eq_nil (h : v.Shaped) (hv : v.kind.level = .leaf) : v.children = [] := by
  refine List.eq_nil_iff_forall_not_mem.mpr fun c hc => ?_
  have hholds := h.fits.holds c hc
  rw [hv] at hholds
  cases hholds

/-- The expressions in a view are folded. -/
def Folded (v : View) : Prop := ∀ w ∈ v.nodes, w.kind.isFolded

theorem Folded.kind (h : v.Folded) : v.kind.isFolded := h v v.self_mem_nodes

theorem Folded.child {c : View} (h : v.Folded) (hc : c ∈ v.children) : c.Folded := by
  obtain ⟨ref, serial, kind, children⟩ := v
  exact (forall_nodes_node.mp h).2 c hc

end View

namespace Dialect

variable (d : Dialect) (registry : Registry)

/-- Whether and how it fails to write a directive call. -/
def checkCall (node : ℕ) (site : String) (call : DirectiveCall) : Except CompileError Unit := do
  let directive ← (registry.resolve call).mapError (CompileError.atSite site)
  if (d.directive? directive).isSome then return ()
  else .error (.unsupportedDirective call.name d.backend node)

/-- Whether and how it fails to write the directives of a node. -/
def checkPrint (v : View) : Except CompileError Unit :=
  match v.kind with
  | .print e calls _ => calls.forM (d.checkCall registry v.serial (printSource e calls))
  | _ => .ok ()

/-! ### Prints -/

theorem outcome_expr (node : ℕ) (he : e.isFolded) : outcome (d.expr node e) = .ok () := by
  induction e with
  | not e ih => exact (outcome_bind_pure (d.expr node e) d.negation).trans (ih he)
  | eq left right ihl ihr =>
    obtain ⟨hl, hr⟩ := Bool.and_eq_true_iff.mp he
    exact outcome_bind_of_ok (ihl hl) fun l =>
      (outcome_bind_pure (d.expr node right) (d.equality l)).trans (ihr hr)
  | bidi f => cases he
  | _ => rfl

theorem outcome_applyCall (value : Fragment) {call : DirectiveCall}
    (hargs : call.args.all Expr.isFolded) :
    outcome (d.applyCall registry node site value call) =
      d.checkCall registry node site call := by
  have hexprs : outcome (call.args.mapM (d.expr node)) = .ok () := by
    rw [outcome_mapM, forM_eq_ok]
    exact fun arg ha => d.outcome_expr node (List.all_eq_true.mp hargs arg ha)
  unfold applyCall checkCall
  cases (registry.resolve call).mapError (CompileError.atSite site) with
  | error e => rfl
  | ok directive =>
    rw [ok_bind, ok_bind]
    cases d.directive? directive with
    | some apply => exact outcome_bind_of_ok hexprs fun _ => rfl
    | none => exact outcome_bind_of_ok hexprs fun _ => rfl

theorem outcome_printValue {escape : Option EscapeContext}
    (h : (NodeKind.print e calls escape).isFolded) :
    outcome (d.printValue registry node e calls) =
      calls.forM (d.checkCall registry node (printSource e calls)) := by
  obtain ⟨he, hcalls⟩ := Bool.and_eq_true_iff.mp h
  refine outcome_bind_of_ok (d.outcome_expr node he) fun value => outcome_foldlM ?_ _
  exact fun value call hc =>
    d.outcome_applyCall registry value (List.all_eq_true.mp hcalls call hc)

/-! ### Bodies -/

/-- Nodes next to each other are written one after the other. -/
theorem outcome_emitNodes (h : ∀ v ∈ vs, ∀ w, outcome (d.emitNode registry ns w v) =
      v.nodes.forM (d.checkPrint registry)) (w : CodeWriter) :
    outcome (d.emitNodes registry ns w vs) =
      (vs.flatMap View.nodes).forM (d.checkPrint registry) := by
  induction vs generalizing w with
  | nil => rfl
  | cons v vs ih =>
    have hrest := ih fun v hv => h v (List.mem_cons_of_mem _ hv)
    rw [emitNodes, List.flatMap_cons, forM_append_eq]
    exact outcome_bind (h v (List.mem_cons_self ..) w) hrest

/-- What is no print is written without looking up a directive. -/
theorem forM_checkPrint {ref : NodeRef} {serial : ℕ} {kind : NodeKind} {children : List View}
    (hk : kind.isPrint = false) :
    (View.node ref serial kind children).nodes.forM (d.checkPrint registry) =
      (children.flatMap View.nodes).forM (d.checkPrint registry) := by
  rw [View.nodes_node, forM_cons_eq]
  cases kind with
  | print => cases hk
  | _ => rfl

theorem outcome_emitBranches (hbody : ∀ v ∈ vs, ∀ w,
      outcome (d.emitNodes registry ns w v.children) =
        (v.children.flatMap View.nodes).forM (d.checkPrint registry))
    (hlevel : ∀ v ∈ vs, v.kind.level = .branch) (hfold : ∀ v ∈ vs, v.kind.isFolded)
    (hfirst : first → ∀ v, vs.head? = some v → v.kind.opensBlock) (w : CodeWriter) :
    outcome (d.emitBranches registry ns first w vs) =
      (vs.flatMap View.nodes).forM (d.checkPrint registry) := by
  -- Only the first branch has to be one with a condition; behind it `first` is false and asks for
  -- nothing.
  induction vs generalizing first w with
  | nil => rfl
  | cons v vs ih =>
    have hrest : ∀ w, outcome (d.emitBranches registry ns false w vs) =
        (vs.flatMap View.nodes).forM (d.checkPrint registry) :=
      ih (fun v hv => hbody v (List.mem_cons_of_mem _ hv))
        (fun v hv => hlevel v (List.mem_cons_of_mem _ hv))
        (fun v hv => hfold v (List.mem_cons_of_mem _ hv)) (fun h => absurd h Bool.false_ne_true)
    have hv := hbody v (List.mem_cons_self ..)
    have hlevel := hlevel v (List.mem_cons_self ..)
    have hfold := hfold v (List.mem_cons_self ..)
    have hopens := fun h => hfirst h v rfl
    obtain ⟨ref, serial, kind, children⟩ := v
    rw [List.flatMap_cons, forM_append_eq]
    cases kind with
    | branch condition =>
      rw [d.forM_checkPrint registry rfl, emitBranches]
      exact outcome_bind_of_ok (d.outcome_expr serial hfold) fun _ => outcome_bind (hv _) hrest
    | otherwise =>
      cases first with
      | true => cases hopens rfl
      | false =>
        rw [d.forM_checkPrint registry rfl, emitBranches, if_neg Bool.false_ne_true]
        exact outcome_bind (hv _) hrest
    | _ => cases hlevel

/-- An item is written, and so is the body below a node that owns one, unless a directive of a
print in it cannot be. -/
theorem outcome_emitNode (hs : v.Shaped) (hf : v.Folded) :
    (v.kind.level.isItem → ∀ w, outcome (d.emitNode registry ns w v) =
      v.nodes.forM (d.checkPrint registry)) ∧
    (v.kind.level.ownsBody → ∀ w, outcome (d.emitNodes registry ns w v.children) =
      (v.children.flatMap View.nodes).forM (d.checkPrint registry)) := by
  induction v using View.induction with
  | node ref serial kind children ih =>
    have hbelow := fun c hc => ih c hc (hs.child hc) (hf.child hc)
    have hbody : kind.level.ownsBody → ∀ w, outcome (d.emitNodes registry ns w children) =
        (children.flatMap View.nodes).forM (d.checkPrint registry) := fun howns =>
      d.outcome_emitNodes registry fun c hc => (hbelow c hc).1 (hs.isItem howns hc)
    refine ⟨fun hitem w => ?_, hbody⟩
    cases kind with
    | text content =>
      obtain rfl : children = [] := hs.children_eq_nil rfl
      rw [emitNode]
      rfl
    | print e calls escape =>
      obtain rfl : children = [] := hs.children_eq_nil rfl
      rw [View.nodes_node, List.flatMap_nil, forM_singleton_eq, emitNode]
      exact (outcome_bind_pure _ _).trans (d.outcome_printValue registry hf.kind)
    | cond =>
      have hbranches : outcome (d.emitBranches registry ns true w children) =
          (children.flatMap View.nodes).forM (d.checkPrint registry) :=
        d.outcome_emitBranches registry
          (fun c hc => (hbelow c hc).2 (by rw [hs.branch rfl hc]; rfl))
          (fun c hc => hs.branch rfl hc) (fun c hc => (hf.child hc).kind)
          (fun _ c hc => hs.fits.opens rfl c hc) w
      rw [emitNode, d.forM_checkPrint registry rfl, ← hbranches]
      exact outcome_bind_pure _ _
    | msg key desc =>
      rw [emitNode, hbody rfl, d.forM_checkPrint registry rfl]
    | call callee passesData =>
      obtain rfl : children = [] := hs.children_eq_nil rfl
      rw [emitNode]
      rfl
    | _ => cases hitem

/-! ### Files -/

/-- The templates of a file that are in effect are written, unless a directive cannot be. -/
theorem outcome_emitTemplates {inEffect : View → Bool}
    (h : ∀ v ∈ vs, v.Shaped ∧ v.Folded ∧ v.kind.level = .template) (w : CodeWriter) :
    outcome (d.emitTemplates registry ns inEffect w vs) =
      (vs.filter inEffect).forM fun v => v.nodes.forM (d.checkPrint registry) := by
  induction vs generalizing w with
  | nil => rfl
  | cons v vs ih =>
    have hrest := ih fun v hv => h v (List.mem_cons_of_mem _ hv)
    obtain ⟨hs, hf, hlevel⟩ := h v (List.mem_cons_self ..)
    have hbody : ∀ w, outcome (d.emitNodes registry ns w v.children) =
        (v.children.flatMap View.nodes).forM (d.checkPrint registry) :=
      (d.outcome_emitNode registry hs hf).2 (by rw [hlevel]; rfl)
    obtain ⟨ref, serial, kind, children⟩ := v
    cases kind with
    | template name isOverride autoescape =>
      have htemplate : ∀ w, outcome (d.emitTemplate registry ns name children w) =
          (View.node ref serial (.template name isOverride autoescape) children).nodes.forM
            (d.checkPrint registry) := by
        intro w
        rw [d.forM_checkPrint registry rfl, emitTemplate]
        exact (outcome_bind_pure _ _).trans (hbody _)
      rw [emitTemplates, List.filter_cons]
      cases inEffect (.node ref serial (.template name isOverride autoescape) children) with
      | true => exact outcome_bind (htemplate w) hrest
      | false => exact outcome_bind_of_ok rfl hrest
    | _ => cases hlevel

theorem outcome_emitFile {inEffect : View → Bool} {path : String} (hk : v.kind = .file path ns)
    (h : ∀ c ∈ v.children, c.Shaped ∧ c.Folded ∧ c.kind.level = .template) :
    outcome (d.emitFile registry inEffect v) =
      (v.children.filter inEffect).forM fun c => c.nodes.forM (d.checkPrint registry) := by
  rw [emitFile, hk]
  exact (outcome_bind_pure _ _).trans (d.outcome_emitTemplates registry h _)

end Dialect

namespace Tree

variable {t : Tree} {d : Dialect} {registry : Registry} {templates : TemplateSet}

/-- The nodes below files that are the definitions in effect of their names. -/
def inEffect (t : Tree) (templates : TemplateSet) : List NodeRef :=
  (t.files.flatMap t.children).filter (templates.isInEffect t)

/-- Emission fails as looking up the directives of the prints in effect does. -/
theorem Formed.outcome_emit (h : t.Formed) (ho : t.Opened)
    (hf : ∀ n, t.Reaches root n → (t.kind n).isFolded) :
    outcome (t.emit d registry templates) =
      (t.inEffect templates).forM fun n => (t.view n).nodes.forM (d.checkPrint registry) := by
  have hc := h.consistent
  rw [emit, outcome_mapM, inEffect, List.filter_flatMap, forM_flatMap]
  refine forM_congr fun f hfile => ?_
  obtain ⟨hreach, path, ns, hk⟩ := h.file_of_mem_files hfile
  rw [d.outcome_emitFile registry ((t.kind_view f).trans hk), hc.children_view, List.filter_map,
    forM_map]
  · simp only [Function.comp_def, ref_view]
  · rw [hc.children_view]
    intro c hm
    obtain ⟨n, hn, rfl⟩ := List.mem_map.mp hm
    refine ⟨h.shaped_view ho n, fun w hw => ?_, ?_⟩
    · obtain ⟨x, hx, rfl⟩ := hc.mem_nodes_view.mp hw
      rw [kind_view]
      exact hf x ((hreach.trans (.of_parent ((hc.mem_children f n).mp hn))).trans hx)
    · rw [kind_view]
      exact h.level_of_mem_file hfile hn

end Tree

end TemplateLang
