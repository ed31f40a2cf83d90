import TemplateLang.Compile
import TemplateLang.Proofs.Escaping.Supported
import TemplateLang.Proofs.Name.Definitions
import TemplateLang.Proofs.Render.Localization
import TemplateLang.Proofs.Target.Emission

/-! Generation from prepared trees does not get stuck. A prepared tree has everything where it may
stand, full names, and directives that were looked up; replacing messages keeps all of this and
folding the direction leaves no helper. So source can be emitted, and the one thing that can go
wrong is a placeholder of a bundle that refers to no print. -/

namespace TemplateLang

variable {t t' : Tree} {n : NodeRef} {registry : Registry} {b : Backend} {d : Dialect} {e : Expr}
  {call : DirectiveCall} {templates : TemplateSet} {bundle : Option Bundle}

/-! ### Directives -/

namespace Dialect

theorem checkCall_eq_ok (hd : ∀ x, (d.directive? x).isSome = x.supports b) {node : ℕ}
    {site : String} :
    d.checkCall registry node site call = .ok () ↔ registry.Supports b call := by
  unfold checkCall Registry.Supports
  cases hresolve : registry.resolve call with
  | error e => simp [Except.mapError]
  | ok x =>
    simp only [Except.mapError, ok_bind, Except.ok.injEq, exists_eq_left', hd]
    cases x.supports b with
    | true => simp [pure, Except.pure]
    | false => simp

theorem isAboutDirective_of_checkCall {node : ℕ} {site : String} {e : CompileError}
    (h : d.checkCall registry node site call = .error e) : e.isAboutDirective := by
  unfold checkCall at h
  cases hresolve : registry.resolve call with
  | error e₀ =>
    rw [hresolve] at h
    obtain rfl : e₀.atSite site = e := Except.error.inj h
    rw [CompileError.isAboutDirective_atSite]
    exact Registry.isAboutDirective_of_resolve hresolve
  | ok x =>
    rw [hresolve, Except.mapError, ok_bind] at h
    split at h
    · cases h
    · obtain rfl := Except.error.inj h
      rfl

theorem checkPrint_eq_ok (hd : ∀ x, (d.directive? x).isSome = x.supports b) {v : View} :
    d.checkPrint registry v = .ok () ↔ ∀ e calls escape, v.kind = .print e calls escape →
      ∀ call ∈ calls, registry.Supports b call := by
  unfold checkPrint
  cases v.kind with
  | print e calls escape =>
    simp only [forM_eq_ok, d.checkCall_eq_ok hd]
    constructor
    · rintro h _ _ _ ⟨⟩
      exact h
    · exact fun h => h e calls escape rfl
  | _ => simp

theorem isAboutDirective_of_checkPrint {v : View} {e : CompileError}
    (h : d.checkPrint registry v = .error e) : e.isAboutDirective := by
  unfold checkPrint at h
  split at h
  · obtain ⟨call, -, hcall⟩ := exists_of_forM_eq_error h
    exact d.isAboutDirective_of_checkCall hcall
  · cases h

end Dialect

theorem NodeKind.supported_folded {dir : Direction} {k : NodeKind} :
    (k.folded dir).Supported registry b ↔ k.Supported registry b := by
  cases k with
  | print e calls escape =>
    constructor
    · rintro h _ _ _ ⟨⟩ call hc
      have hfolded := h _ _ _ rfl (call.folded dir) (List.mem_map_of_mem hc)
      exact hfolded.congr rfl (by simp [DirectiveCall.folded])
    · rintro h _ _ _ ⟨⟩ call hc
      obtain ⟨call₀, hc₀, rfl⟩ := List.mem_map.mp hc
      exact (h e calls escape rfl call₀ hc₀).congr rfl (by simp [DirectiveCall.folded])
  | _ => simp [Supported, folded]

namespace Tree

/-! ### Folding -/

/-- Folding leaves the templates. -/
theorem Formed.sameTemplates_foldDirection (h : t.Formed) (dir : Direction) :
    SameTemplates t (t.foldDirection dir).2 := by
  have hkind : ∀ n, t.Reaches root n → t.level n = .file ∨ t.level n = .template →
      (t.foldDirection dir).2.kind n = t.kind n := by
    intro n hn hlevel
    rw [h.kind_foldDirection dir hn]
    rw [level] at hlevel
    cases hk : t.kind n <;> simp_all [NodeKind.level, NodeKind.folded]
  exact h.sameTemplates (t.sameShape_foldDirection dir) (fun f hf hl => hkind f hf (.inl hl))
    fun n _ hn hl => hkind n hn (.inr hl)

theorem SameTemplates.inEffect_eq (hs : SameTemplates t t') :
    t'.inEffect templates = t.inEffect templates := by
  rw [inEffect, inEffect, hs.flatMap_eq]
  refine List.filter_congr fun n hn => ?_
  rw [TemplateSet.isInEffect, TemplateSet.isInEffect, hs.kind n hn]

/-! ### Emission -/

theorem Formed.outcome_emit_folded (h : t.Formed) (ho : t.Opened) (dir : Direction) :
    outcome ((t.foldDirection dir).2.emit d registry templates) =
      (t.inEffect templates).forM fun n =>
        ((t.foldDirection dir).2.view n).nodes.forM (d.checkPrint registry) := by
  rw [(h.foldDirection dir).outcome_emit (ho.foldDirection dir),
    (h.sameTemplates_foldDirection dir).inEffect_eq]
  intro n hn
  rw [h.kind_foldDirection dir ((t.sameShape_foldDirection dir).reaches.mp hn)]
  exact NodeKind.isFolded_folded dir _

/-- Folded in a direction, a tree is emitted exactly when the directives in effect are supported. -/
theorem Formed.emit_ok_iff (h : t.Formed) (ho : t.Opened) (dir : Direction)
    (hd : ∀ x, (d.directive? x).isSome = x.supports b) :
    (∃ units, (t.foldDirection dir).2.emit d registry templates = .ok units) ↔
      ∀ n ∈ t.inEffect templates, ∀ x, t.Reaches n x → (t.kind x).Supported registry b := by
  have hs := t.sameShape_foldDirection dir
  have hc := (h.foldDirection dir).consistent
  have hkind : ∀ n ∈ t.inEffect templates, ∀ x, t.Reaches n x →
      (t.foldDirection dir).2.kind x = (t.kind x).folded dir := fun n hn x hx =>
    h.kind_foldDirection dir ((h.of_mem_files (List.mem_of_mem_filter hn)).1.trans hx)
  rw [← outcome_eq_ok, h.outcome_emit_folded ho, forM_eq_ok]
  refine forall₂_congr fun n hn => ?_
  rw [forM_eq_ok]
  constructor
  · intro hok x hx
    have hview := hok _ (hc.mem_nodes_view.mpr ⟨x, hs.reaches.mpr hx, rfl⟩)
    rw [d.checkPrint_eq_ok hd, kind_view, hkind n hn x hx] at hview
    exact NodeKind.supported_folded.mp hview
  · intro hok w hw
    obtain ⟨x, hx, rfl⟩ := hc.mem_nodes_view.mp hw
    have hx' := hs.reaches.mp hx
    rw [d.checkPrint_eq_ok hd, kind_view, hkind n hn x hx']
    exact NodeKind.supported_folded.mpr (hok x hx')

theorem Formed.isAboutDirective_of_emit (h : t.Formed) (ho : t.Opened) {dir : Direction}
    {e : CompileError} (he : (t.foldDirection dir).2.emit d registry templates = .error e) :
    e.isAboutDirective := by
  rw [← outcome_eq_error, h.outcome_emit_folded ho] at he
  obtain ⟨n, -, hn⟩ := exists_of_forM_eq_error he
  obtain ⟨w, -, hw⟩ := exists_of_forM_eq_error hn
  exact d.isAboutDirective_of_checkPrint hw

end Tree

/-! ### Generation -/

namespace Generator

variable (g : Generator)

/-- The direction of the output of a call. -/
def direction (bundle : Option Bundle) : Direction :=
  .resolve g.bidiDir (bundle.map Bundle.locale)

/-- With full names, a call emits the folded tree, and leaves it. -/
theorem generateWithFrame_eq (h : t.Formed) (hn : t.Named) (bundle : Option Bundle) :
    (g.generateWithFrame t bundle .empty).tree = (t.foldDirection (g.direction bundle)).2 ∧
      (g.generateWithFrame t bundle .empty).result =
        (t.foldDirection (g.direction bundle)).2.emit g.dialect g.registry
          (.ofDefinitions g.policy t.definitions) := by
  have hresolve : TemplateSet.resolve (t.foldDirection (g.direction bundle)).2 g.policy =
      .ok (.ofDefinitions g.policy t.definitions) := by
    rw [(h.sameTemplates_foldDirection _).resolve_eq, hn.resolve_eq]
  have hdir : (⟨some (Scope.sharedBindings bundle g.bidiDir).reverse, 1⟩ : Scope).direction =
      .ok (g.direction bundle) := rfl
  have hframe : g.generateInFrame t ⟨some (Scope.sharedBindings bundle g.bidiDir).reverse, 1⟩ =
      ((t.foldDirection (g.direction bundle)).2.emit g.dialect g.registry
        (.ofDefinitions g.policy t.definitions), (t.foldDirection (g.direction bundle)).2) := by
    rw [generateInFrame, Tree.optimizeBidi, hdir]
    simp only [hresolve]
  exact ⟨congrArg Prod.snd hframe, congrArg Prod.fst hframe⟩

end Generator

namespace CompileOptions

theorem isSome_directive? (o : CompileOptions) (x : Directive) :
    (o.dialect.directive? x).isSome = x.supports o.target.backend := by
  rw [dialect]
  cases o.target <;> rfl

end CompileOptions

namespace Tree

/-- Trees that source can be generated from, as far as their directives can be written. -/
structure Emittable (t : Tree) : Prop extends Formed t where
  opened : t.Opened
  named : t.Named

theorem Loaded.emittable_prepare {backend : Option Backend} (h : t.Loaded) (ho : t.Opened)
    (hp : t.prepare registry backend = (.ok (), t')) : t'.Emittable :=
  ⟨(h.prepare hp).toFormed, ho.prepare hp, h.named_prepare hp⟩

/-- Replacing messages keeps a tree emittable. -/
theorem Emittable.insertMessages (h : t.Emittable)
    (ht : t.insertMessages bundle = (.ok (), t')) : t'.Emittable := by
  obtain ⟨new, hl⟩ := h.toFormed.of_insertMessages ht
  exact ⟨hl.formed, hl.opened h.opened, (hl.sameTemplates h.toFormed).named h.named⟩

/-- Without the messages, source is generated exactly when the directives in effect are
supported. -/
theorem Emittable.generateWithFrame_ok_iff (h : t.Emittable) {g : Generator}
    (hd : ∀ x, (g.dialect.directive? x).isSome = x.supports b) (bundle : Option Bundle) :
    (∃ units, (g.generateWithFrame t bundle .empty).result = .ok units) ↔
      ∀ n ∈ t.inEffect (.ofDefinitions g.policy t.definitions), ∀ x, t.Reaches n x →
        (t.kind x).Supported g.registry b := by
  rw [(g.generateWithFrame_eq h.toFormed h.named bundle).2]
  exact h.toFormed.emit_ok_iff h.opened _ hd

theorem Emittable.isAboutDirective_of_generateWithFrame (h : t.Emittable) {g : Generator}
    {bundle : Option Bundle} {e : CompileError}
    (he : (g.generateWithFrame t bundle .empty).result = .error e) : e.isAboutDirective := by
  rw [(g.generateWithFrame_eq h.toFormed h.named bundle).2] at he
  exact h.toFormed.isAboutDirective_of_emit h.opened he

/-- Messages are replaced before source is generated, or a placeholder of one refers to no print. -/
theorem Emittable.generate_cases (h : t.Emittable) (g : Generator) (bundle : Bundle) :
    (∃ t₁, t.insertMessages (some bundle) = (.ok (), t₁) ∧
      (g.generate t (some bundle)).result =
        (g.generateWithFrame t₁ (some bundle) .empty).result) ∨
      ∃ n ∈ t.descendants root, ∃ key name, UnknownPlaceholder t (some bundle) n key name ∧
        (g.generate t (some bundle)).result =
          .error (.codeGeneration (t.serial n) (.unknownPlaceholder key name)) := by
  rw [Generator.generate, Generator.generateInScope]
  by_cases hok : ∃ t₁, t.insertMessages (some bundle) = (.ok (), t₁)
  · obtain ⟨t₁, ht₁⟩ := hok
    exact .inl ⟨t₁, ht₁, by rw [ht₁]⟩
  · right
    rw [h.toFormed.insertMessages_ok_iff] at hok
    push Not at hok
    obtain ⟨n, hn, hr⟩ := hok
    have hc := h.consistent
    obtain ⟨m, hm, key, name, hunknown, he⟩ := h.toFormed.insertEach_eq_error
      h.toFormed.messages_outerMessages (hc.mem_outerMessages.mpr hn) hr
    refine ⟨m, hc.mem_descendants.mpr (hc.mem_outerMessages.mp hm).reaches, key, name, hunknown, ?_⟩
    rw [← Tree.insertMessages] at he
    generalize t.insertMessages (some bundle) = result at he
    obtain ⟨r, t₁⟩ := result
    obtain rfl : r = _ := he
    rfl

/-- Prints that replacing messages makes have the directives of others. -/
theorem supported_insertMessages (h : ∀ x, (t.kind x).Supported registry b)
    (ht : t.insertMessages bundle = (.ok (), t')) (x : NodeRef) :
    (t'.kind x).Supported registry b := by
  intro e calls escape hk
  have hprints := printsFrom_insertMessages t bundle
  rw [ht] at hprints
  obtain ⟨y, hy⟩ := hprints x (by rw [hk]; rfl)
  exact h y e calls escape (hy.trans hk)

/-- Source is generated from every prepared tree, unless a placeholder of the bundle refers to no
print of its message. -/
theorem generate_prepared {fresh : ℕ} {text : String} (o : CompileOptions)
    (hload : Tree.load fresh text = .ok t)
    (hprepare : t.prepare .full (some o.target.backend) = (.ok (), t')) :
    (∃ units, ((o.generator .full).generate t' none).result = .ok units) ∧
      ∀ bundle, (∃ units, ((o.generator .full).generate t' (some bundle)).result = .ok units) ∨
        ∃ n ∈ t'.descendants root, ∃ key name, UnknownPlaceholder t' (some bundle) n key name ∧
          ((o.generator .full).generate t' (some bundle)).result =
            .error (.codeGeneration (t'.serial n) (.unknownPlaceholder key name)) := by
  have h := loaded_of_load hload
  have hemit := h.emittable_prepare (opened_of_load hload) hprepare
  have hsupported : ∀ x, (t'.kind x).Supported .full o.target.backend := fun x =>
    (h.supported_or_lacksEscape hprepare x).resolve_right (NodeKind.not_lacksEscape_full _)
  refine ⟨?_, fun bundle => ?_⟩
  · exact (hemit.generateWithFrame_ok_iff o.isSome_directive? none).mpr
      fun _ _ x _ => hsupported x
  · refine (hemit.generate_cases (o.generator .full) bundle).imp_left ?_
    rintro ⟨t₁, ht₁, heq⟩
    rw [heq]
    exact ((hemit.insertMessages ht₁).generateWithFrame_ok_iff o.isSome_directive? _).mpr
      fun _ _ x _ => supported_insertMessages hsupported ht₁ x

/-- The page as JavaScript. -/
def pageOptions : CompileOptions := .ofInput "page.json" .js

/-- A greeting by a name that no print of the message has. -/
def strangeBundle : Bundle := ⟨"fr", [("greeting", [.text "Bonjour ", .placeholder "name"])]⟩

/-- The page is generated, and with the bundle its message is at fault. -/
theorem generate_prepared_page :
    (∃ units, ((pageOptions.generator .full).generate preparedPage none).result = .ok units) ∧
      ∃ n ∈ preparedPage.descendants root, ∃ key name,
        UnknownPlaceholder preparedPage (some strangeBundle) n key name ∧
        ((pageOptions.generator .full).generate preparedPage (some strangeBundle)).result =
          .error (.codeGeneration (preparedPage.serial n) (.unknownPlaceholder key name)) := by
  obtain ⟨hnone, hbundle⟩ := generate_prepared pageOptions load_pageText prepare_page
  refine ⟨hnone, (hbundle strangeBundle).resolve_left ?_⟩
  rintro ⟨units, hunits⟩
  have herror : ((pageOptions.generator .full).generate preparedPage
      (some strangeBundle)).result.toOption = none := by decide +kernel
  rw [hunits] at herror
  cases herror

end Tree

end TemplateLang
