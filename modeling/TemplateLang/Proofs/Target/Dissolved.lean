import TemplateLang.Proofs.Message.Dissolved
import TemplateLang.Proofs.Name.TemplateSet
import TemplateLang.Proofs.Result
import TemplateLang.Proofs.Tree.Shape
import TemplateLang.Target.Emission

/-! Emission reads a view as if its messages were dissolved: a message is emitted as its content,
and handles and serial numbers show in errors alone. -/

namespace TemplateLang.Dialect

variable (d : Dialect) (registry : Registry) {ns : String} {vs : List View} {v : View}

/-- Both computations give the same, or both fail. -/
abbrev Alike {α : Type} (x y : Except CompileError α) : Prop :=
  AlikeUpTo (fun _ : CompileError => ()) x y

theorem alike_error {α : Type} (e e' : CompileError) :
    Alike (.error e : Except CompileError α) (.error e') :=
  .error rfl

/-! ### Prints -/

theorem alike_expr (node node' : ℕ) (e : Expr) : Alike (d.expr node e) (d.expr node' e) := by
  induction e with
  | not e ih => exact ih.bind fun _ => .refl _
  | eq left right ihl ihr => exact ihl.bind fun _ => ihr.bind fun _ => .refl _
  | bidi f => exact alike_error _ _
  | _ => exact .refl _

theorem alike_applyCall (node node' : ℕ) (site : String) (value : Fragment)
    (call : DirectiveCall) :
    Alike (d.applyCall registry node site value call)
      (d.applyCall registry node' site value call) := by
  unfold applyCall
  refine .bind_same _ fun directive => ?_
  have hargs : Alike (call.args.mapM (d.expr node)) (call.args.mapM (d.expr node')) :=
    .mapM fun e _ => d.alike_expr node node' e
  refine hargs.bind fun args => ?_
  cases d.directive? directive with
  | none => exact alike_error _ _
  | some apply => exact .refl _

theorem alike_printValue (node node' : ℕ) (e : Expr) (calls : List DirectiveCall) :
    Alike (d.printValue registry node e calls) (d.printValue registry node' e calls) := by
  unfold printValue
  refine (d.alike_expr node node' e).bind fun value => ?_
  generalize d.printed value = value
  generalize printSource e calls = site
  induction calls generalizing value with
  | nil => exact .refl _
  | cons call calls ih =>
    rw [List.foldlM_cons, List.foldlM_cons]
    exact (d.alike_applyCall registry node node' site value call).bind ih

/-! ### Bodies -/

theorem emitNodes_append (w : CodeWriter) (vs us : List View) :
    d.emitNodes registry ns w (vs ++ us) =
      d.emitNodes registry ns w vs >>= fun w => d.emitNodes registry ns w us := by
  induction vs generalizing w with
  | nil => rfl
  | cons v vs ih =>
    rw [List.cons_append, emitNodes, emitNodes]
    cases d.emitNode registry ns w v with
    | error e => rfl
    | ok w => exact ih w

theorem emitNodes_singleton (w : CodeWriter) (v : View) :
    d.emitNodes registry ns w [v] = d.emitNode registry ns w v := by
  rw [emitNodes]
  cases d.emitNode registry ns w v with
  | error e => rfl
  | ok w => rfl

theorem alike_emitNodes_flatMap {f : View → List View}
    (h : ∀ v ∈ vs, ∀ w, Alike (d.emitNode registry ns w v) (d.emitNodes registry ns w (f v)))
    (w : CodeWriter) :
    Alike (d.emitNodes registry ns w vs) (d.emitNodes registry ns w (vs.flatMap f)) := by
  induction vs generalizing w with
  | nil => exact .refl _
  | cons v vs ih =>
    rw [List.flatMap_cons, emitNodes_append, emitNodes]
    exact (h v (List.mem_cons_self ..) w).bind (ih fun u hu => h u (List.mem_cons_of_mem _ hu))

theorem alike_emitBranches {f : View → View} (hkind : ∀ v ∈ vs, (f v).kind = v.kind)
    (hbody : ∀ v ∈ vs, ∀ w, Alike (d.emitNodes registry ns w v.children)
      (d.emitNodes registry ns w (f v).children)) (first : Bool) (w : CodeWriter) :
    Alike (d.emitBranches registry ns first w vs)
      (d.emitBranches registry ns first w (vs.map f)) := by
  induction vs generalizing first w with
  | nil => exact .refl _
  | cons v vs ih =>
    have hrest := ih (fun u hu => hkind u (List.mem_cons_of_mem _ hu))
      (fun u hu => hbody u (List.mem_cons_of_mem _ hu)) false
    have hk := hkind v (List.mem_cons_self ..)
    have hb := hbody v (List.mem_cons_self ..)
    rw [List.map_cons]
    generalize f v = u at hk hb
    obtain ⟨ref, serial, kind, children⟩ := v
    obtain ⟨ref', serial', kind', children'⟩ := u
    obtain rfl : kind' = kind := hk
    cases kind' with
    | branch condition =>
      rw [emitBranches, emitBranches]
      exact (d.alike_expr serial serial' condition).bind fun test => (hb _).bind hrest
    | otherwise =>
      rw [emitBranches, emitBranches]
      cases first with
      | true => exact alike_error _ _
      | false => exact (hb _).bind hrest
    | _ => exact alike_error _ _

/-- A node is emitted as what is left of it when messages are dissolved, and so is the body below
it. -/
theorem alike_dissolve (hs : v.Shaped) :
    (∀ w, Alike (d.emitNode registry ns w v) (d.emitNodes registry ns w v.dissolve)) ∧
      ∀ w, Alike (d.emitNodes registry ns w v.children)
        (d.emitNodes registry ns w (v.children.flatMap View.dissolve)) := by
  induction v using View.induction with
  | node ref serial kind children ih =>
    have hbody : ∀ w, Alike (d.emitNodes registry ns w children)
        (d.emitNodes registry ns w (children.flatMap View.dissolve)) :=
      d.alike_emitNodes_flatMap registry fun c hc => (ih c hc (hs.child hc)).1
    refine ⟨fun w => ?_, hbody⟩
    by_cases hm : (View.node ref serial kind children).kind.isMessage
    · rw [View.dissolve_of_isMessage hm]
      cases kind with
      | msg key desc => exact hbody w
      | _ => cases hm
    · rw [View.dissolve_of_not_isMessage (by simpa using hm),
        View.dissolveBelow, emitNodes_singleton, View.kind, View.children]
      cases kind with
      | print e calls escape =>
        rw [emitNode, emitNode]
        exact (d.alike_printValue registry serial 0 e calls).bind fun _ => .refl _
      | cond =>
        have hbranch : ∀ c ∈ children, c.kind.isMessage = false := by
          intro c hc
          have hlevel : c.kind.level = .branch := hs.branch rfl hc
          cases hk : c.kind <;> simp_all [NodeKind.level, NodeKind.isMessage]
        have hsingle : children.flatMap View.dissolve = children.map View.dissolveBelow := by
          rw [List.map_eq_flatMap]
          exact List.flatMap_congr fun c hc => View.dissolve_of_not_isMessage (hbranch c hc)
        rw [emitNode, emitNode, hsingle, List.isEmpty_map]
        exact (d.alike_emitBranches registry (f := View.dissolveBelow) (fun _ _ => rfl)
          (fun c hc => (ih c hc (hs.child hc)).2) true w).bind fun _ => .refl _
      | msg key desc => exact absurd rfl hm
      | text content => exact .refl _
      | call callee passesData => exact .refl _
      | _ => exact alike_error _ _

/-! ### Files -/

/-- Templates at the same nodes are emitted alike when their bodies are. -/
theorem alike_emitTemplates {f g : NodeRef → View} {inEffect inEffect' : View → Bool}
    {l : List NodeRef} (hkind : ∀ n ∈ l, (g n).kind = (f n).kind)
    (heffect : ∀ n ∈ l, inEffect' (g n) = inEffect (f n))
    (hbody : ∀ n ∈ l, ∀ w, Alike (d.emitNodes registry ns w (f n).children)
      (d.emitNodes registry ns w (g n).children)) (w : CodeWriter) :
    Alike (d.emitTemplates registry ns inEffect w (l.map f))
      (d.emitTemplates registry ns inEffect' w (l.map g)) := by
  induction l generalizing w with
  | nil => exact .refl _
  | cons n l ih =>
    have hrest := ih (fun m hm => hkind m (List.mem_cons_of_mem _ hm))
      (fun m hm => heffect m (List.mem_cons_of_mem _ hm))
      fun m hm => hbody m (List.mem_cons_of_mem _ hm)
    rw [List.map_cons, List.map_cons, emitTemplates, emitTemplates, hkind n (List.mem_cons_self ..),
      heffect n (List.mem_cons_self ..)]
    cases (f n).kind with
    | template name isOverride autoescape =>
      cases inEffect (f n) with
      | false => exact hrest w
      | true =>
        refine AlikeUpTo.bind ?_ hrest
        exact (hbody n (List.mem_cons_self ..) _).bind fun _ => .refl _
    | _ => exact alike_error _ _

/-- Trees with the same templates are emitted alike when the bodies of the templates are. -/
theorem alike_emit {t t' : Tree} {templates : TemplateSet} (h : t.Consistent) (h' : t'.Consistent)
    (hs : Tree.SameTemplates t t')
    (hbody : ∀ n ∈ t.files.flatMap t.children, ∀ ns w,
      Alike (d.emitNodes registry ns w (t.view n).children)
        (d.emitNodes registry ns w (t'.view n).children)) :
    Alike (t.emit d registry templates) (t'.emit d registry templates) := by
  have hfile : ∀ f ∈ t.files,
      Alike (d.emitFile registry (fun v => templates.isInEffect t v.ref) (t.view f))
        (d.emitFile registry (fun v => templates.isInEffect t' v.ref) (t'.view f)) := by
    intro f hf
    have hmem : ∀ n ∈ t.children f, n ∈ t.files.flatMap t.children := fun n hn =>
      List.mem_flatMap.mpr ⟨f, hf, hn⟩
    rw [emitFile, emitFile, Tree.kind_view, Tree.kind_view, hs.kind_file f hf]
    cases t.kind f with
    | file path ns =>
      refine AlikeUpTo.bind ?_ fun _ => .refl _
      rw [h.children_view, h'.children_view, hs.children f hf]
      refine d.alike_emitTemplates registry (fun n hn => ?_) (fun n hn => ?_)
        (fun n hn => hbody n (hmem n hn) ns) _
      · rw [Tree.kind_view, Tree.kind_view, hs.kind n (hmem n hn)]
      · rw [Tree.ref_view, Tree.ref_view, TemplateSet.isInEffect, TemplateSet.isInEffect,
          hs.kind n (hmem n hn)]
    | _ => exact alike_error _ _
  rw [Tree.emit, Tree.emit, hs.files]
  exact .mapM hfile

end TemplateLang.Dialect
