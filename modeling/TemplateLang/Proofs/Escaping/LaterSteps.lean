import TemplateLang.Proofs.Render.DataFault
import TemplateLang.Proofs.Target.Progress

/-! Directive errors after preparation. Preparation looks up the directives that the source writes,
and then puts default escapes in front of prints without looking these up. Where the registry
has every default that was put in, no later step fails because of a directive; a registry that
lacks one makes generation fail as soon as such a print is in effect. -/

namespace TemplateLang

variable {t t' : Tree} {n : NodeRef} {registry : Registry} {b : Backend} {error : CompileError}

/-- An error of a step that comes after preparing `t`, which gave `t'`, for the backend `b`. -/
inductive LaterError (t t' : Tree) (registry : Registry) (b : Backend) : CompileError → Prop
  /-- Source is generated for the backend. -/
  | generate {o : CompileOptions} {bundle : Option Bundle} {error : CompileError}
      (ho : o.target.backend = b)
      (he : ((o.generator registry).generate t' bundle).result = .error error) :
      LaterError t t' registry b error
  /-- A renderer is made of the tree, prepared or not. -/
  | build {t₁ : Tree} {bidiDir : Int} {policy : OverridePolicy} {error : CompileError}
      (ht : t₁ = t ∨ t₁ = t') (he : Renderer.ofTree t₁ registry bidiDir policy = .error error) :
      LaterError t t' registry b error
  /-- A template is rendered. -/
  | render {t₁ : Tree} {bidiDir : Int} {policy : OverridePolicy} {r : Renderer} {name : String}
      {d : Data} {bundle : Option Bundle} {error : CompileError} (ht : t₁ = t ∨ t₁ = t')
      (hr : Renderer.ofTree t₁ registry bidiDir policy = .ok r)
      (he : r.render name d bundle = .error (.compile error)) :
      LaterError t t' registry b error

namespace Tree

/-! ### Generating source -/

theorem Emittable.supported_of_generate (h : t.Emittable) {o : CompileOptions}
    (hsupported : ∀ x, (t.kind x).Supported registry o.target.backend) {bundle : Option Bundle}
    (he : ((o.generator registry).generate t bundle).result = .error error) :
    error.isAboutDirective = false := by
  have hok : ∀ {t₁ : Tree}, t₁.Emittable →
      (∀ x, (t₁.kind x).Supported registry o.target.backend) →
      ((o.generator registry).generateWithFrame t₁ bundle .empty).result ≠ .error error := by
    intro t₁ h₁ hsupported₁ he
    obtain ⟨units, hunits⟩ := (h₁.generateWithFrame_ok_iff (g := o.generator registry)
      o.isSome_directive? bundle).mpr fun _ _ x _ => hsupported₁ x
    rw [he] at hunits
    cases hunits
  cases bundle with
  | none => exact absurd he (hok h hsupported)
  | some bundle =>
    rcases h.generate_cases (o.generator registry) bundle with
      ⟨t₁, ht₁, heq⟩ | ⟨n, -, key, name, -, heq⟩
    · rw [heq] at he
      exact absurd he (hok (h.insertMessages ht₁) (supported_insertMessages hsupported ht₁))
    · rw [heq] at he
      obtain rfl := Except.error.inj he
      rfl

/-! ### Making renderers -/

theorem not_isAboutDirective_of_checkOverrides (h : t.checkOverrides = .error error) :
    error.isAboutDirective = false := by
  have hnode : ∀ seen, ∀ v ∈ (t.view root).nodesWhere NodeKind.holdsTemplates,
      FailsOnly (fun e => e.isAboutDirective = false) (t.checkOverride seen v) := by
    intro seen v _
    unfold checkOverride
    split
    · split
      · exact failsOnly_error rfl
      · split
        · exact failsOnly_ok _
        · split
          · exact failsOnly_ok _
          · unfold duplicateError
            simp only
            split
            · exact failsOnly_error rfl
            · exact failsOnly_error rfl
    · exact failsOnly_ok _
  exact ((failsOnly_foldlM hnode []).bind fun _ => failsOnly_ok _) error h

/-- A renderer can be made unless names are repeated, if the directives are supported. -/
theorem Loaded.not_isAboutDirective_of_ofTree (h : t.Loaded)
    (hsupported : ∀ x, (t.qualifyNames.kind x).Supported registry b) {bidiDir : Int}
    {policy : OverridePolicy} (he : Renderer.ofTree t registry bidiDir policy = .error error) :
    error.isAboutDirective = false := by
  unfold Renderer.ofTree at he
  rcases hp : t.prepare registry (some .interpreter) with ⟨e | u, t₁⟩
  · rw [hp] at he
    obtain rfl : e = error := Except.error.inj he
    rcases h.prepare_eq_error hp with hover | hcheck
    · exact not_isAboutDirective_of_checkOverrides hover
    · have hok : t.qualifyNames.checkDirectives registry (some .interpreter) = .ok () :=
        h.qualifyNames.checkDirectives_eq_ok.mpr fun n _ e calls escape hk call hc =>
          checkCall_eq_ok.mpr (hsupported n e calls escape hk call hc).interpreter
      rw [hcheck] at hok
      cases hok
  · rw [hp] at he
    simp only [(h.named_prepare hp).resolve_eq policy] at he
    cases he

theorem supported_qualifyNames (h : ∀ x, (t.kind x).Supported registry b) (x : NodeRef) :
    (t.qualifyNames.kind x).Supported registry b := by
  intro e calls escape hk
  rcases kind_mapKinds_cases t NodeKind.holdsNames NodeKind.qualifyName "" x with hx | ⟨ns, hx⟩
  · exact h x e calls escape (hx.symm.trans hk)
  · exact h x e calls escape (print_of_qualifyNames (hx.symm.trans hk))

/-! ### Rendering -/

/-- A directive that fails when a template is rendered is a default that the registry lacks. -/
theorem Loaded.lacksEscape_of_render (h : t.Loaded) (ho : t.Opened) {bidiDir : Int}
    {policy : OverridePolicy} {r : Renderer}
    (hr : Renderer.ofTree t registry bidiDir policy = .ok r) {name : String} {d : Data}
    {bundle : Option Bundle} (he : r.render name d bundle = .error (.compile error)) :
    ∃ x, (r.tree.kind x).LacksEscape registry := by
  obtain ⟨hp, -⟩ := Renderer.of_ofTree h hr
  obtain ⟨n, hn⟩ := Renderer.exists_of_render_compile h hr he
  rcases Renderer.fault_of_render h ho hr hn he with hdata |
    ⟨x, e, calls, escape, call, e', -, hk, hc, hresolve, -⟩
  · cases hdata
  · refine ⟨x, (h.supported_or_lacksEscape hp x).resolve_left fun hsupported => ?_⟩
    obtain ⟨directive, hok, -⟩ := hsupported e calls escape hk call hc
    rw [hresolve] at hok
    cases hok

/-- Renderers of the tree before and after preparation have the prints of the prepared tree. -/
theorem Loaded.kind_of_renderer (h : t.Loaded)
    (hprepare : t.prepare registry (some b) = (.ok (), t')) {t₁ : Tree} (ht : t₁ = t ∨ t₁ = t')
    {backend : Option Backend} {t₂ : Tree} (hp : t₁.prepare registry backend = (.ok (), t₂))
    (hn : (t₂.kind n).isPrint) : t₂.kind n = t'.kind n := by
  rcases ht with rfl | rfl
  · have hhas := (sameShape_prepare hp).has.mp (has_of_isPrint hn)
    rw [h.kind_prepare hp hhas, h.kind_prepare hprepare hhas]
  · exact h.prepare_again hprepare hp ((h.prepare hprepare).isPrint_of_prepare hp hn)

/-! ### All steps -/

/-- Where no default is missing, no later step fails because of a directive. -/
theorem Loaded.not_isAboutDirective_of_laterError (h : t.Loaded) (ho : t.Opened)
    (hprepare : t.prepare registry (some b) = (.ok (), t'))
    (hlacks : ∀ x, ¬ (t'.kind x).LacksEscape registry) (hlater : LaterError t t' registry b error) :
    error.isAboutDirective = false := by
  have h' := h.prepare hprepare
  have hsupported : ∀ x, (t'.kind x).Supported registry b := fun x =>
    (h.supported_or_lacksEscape hprepare x).resolve_right (hlacks x)
  cases hlater with
  | generate hb he =>
    subst hb
    exact (h.emittable_prepare ho hprepare).supported_of_generate hsupported he
  | build ht he =>
    rcases ht with rfl | rfl
    · exact h.not_isAboutDirective_of_ofTree (h.supported_qualifyNames hprepare) he
    · exact h'.not_isAboutDirective_of_ofTree (Tree.supported_qualifyNames hsupported) he
  | @render t₁ _ _ r _ _ _ _ ht hr he =>
    have h₁ : t₁.Loaded ∧ t₁.Opened := by
      rcases ht with rfl | rfl
      · exact ⟨h, ho⟩
      · exact ⟨h', ho.prepare hprepare⟩
    obtain ⟨x, hx⟩ := h₁.1.lacksEscape_of_render h₁.2 hr he
    obtain ⟨e, context, calls, hk, -⟩ := id hx
    have hkind := h.kind_of_renderer hprepare ht (Renderer.of_ofTree h₁.1 hr).1 (n := x)
      (by rw [hk]; rfl)
    exact absurd (hkind ▸ hx) (hlacks x)

/-- A tree with the prints of a prepared one is not generated exactly when a default is missing in
a template in effect. -/
theorem Emittable.generate_error_iff (h : t.Emittable) {o : CompileOptions}
    (hcases : ∀ x, (t.kind x).Supported registry o.target.backend ∨
      (t.kind x).LacksEscape registry) :
    (∃ error, ((o.generator registry).generate t none).result = .error error ∧
        error.isAboutDirective) ↔
      ∃ m ∈ t.inEffect (.ofDefinitions o.policy t.definitions), ∃ n ∈ t.descendants m,
        (t.kind n).LacksEscape registry := by
  have hok : (∃ units, ((o.generator registry).generate t none).result = .ok units) ↔
      ∀ m ∈ t.inEffect (.ofDefinitions o.policy t.definitions), ∀ x, t.Reaches m x →
        (t.kind x).Supported registry o.target.backend :=
    h.generateWithFrame_ok_iff o.isSome_directive? none
  have hc := h.consistent
  constructor
  · rintro ⟨error, he, -⟩
    have hno : ¬ ∃ units, ((o.generator registry).generate t none).result = .ok units := by
      rintro ⟨units, hunits⟩
      exact nomatch he.symm.trans hunits
    rw [hok] at hno
    push Not at hno
    obtain ⟨m, hm, x, hx, hunsupported⟩ := hno
    exact ⟨m, hm, x, hc.mem_descendants.mpr hx, (hcases x).resolve_left hunsupported⟩
  · rintro ⟨m, hm, n, hn, hlacks⟩
    cases hresult : ((o.generator registry).generate t none).result with
    | error error => exact ⟨error, rfl, h.isAboutDirective_of_generateWithFrame hresult⟩
    | ok units =>
      have hsupported := hok.mp ⟨units, hresult⟩ m hm n (hc.mem_descendants.mp hn)
      exact absurd hlacks hsupported.not_lacksEscape

/-- Where the registry has all defaults that were put in, no later step fails because of a
directive. Otherwise generation does as soon as a print without its default is in effect. -/
theorem lacksEscape_of_laterError {fresh : ℕ} {text : String}
    (hload : Tree.load fresh text = .ok t)
    (hprepare : t.prepare registry (some b) = (.ok (), t')) :
    (∀ error, LaterError t t' registry b error → error.isAboutDirective →
      ∃ n ∈ t'.descendants root, (t'.kind n).LacksEscape registry) ∧
    ∀ o : CompileOptions, o.target.backend = b →
      ((∃ error, ((o.generator registry).generate t' none).result = .error error ∧
          error.isAboutDirective) ↔
        ∃ m ∈ t'.inEffect (.ofDefinitions o.policy t'.definitions), ∃ n ∈ t'.descendants m,
          (t'.kind n).LacksEscape registry) := by
  have h := loaded_of_load hload
  have ho := opened_of_load hload
  have h' := h.prepare hprepare
  refine ⟨fun error hlater habout => ?_, ?_⟩
  · by_contra hnone
    have hlacks : ∀ x, ¬ (t'.kind x).LacksEscape registry := by
      intro x hx
      obtain ⟨e, context, calls, hk, -⟩ := id hx
      have hreach := h'.reaches_root (has_of_isPrint (n := x) (by rw [hk]; rfl))
      exact hnone ⟨x, h'.consistent.mem_descendants.mpr hreach, hx⟩
    rw [h.not_isAboutDirective_of_laterError ho hprepare hlacks hlater] at habout
    cases habout
  · rintro o rfl
    exact (h.emittable_prepare ho hprepare).generate_error_iff
      (h.supported_or_lacksEscape hprepare)

/-- All directives but the default of HTML. -/
def withoutEscapeHtml : Registry := ⟨fun d => d ≠ .escapeHtml⟩

theorem prepare_page_withoutEscapeHtml :
    page.prepare withoutEscapeHtml (some .jsSource) = (.ok (), preparedPage) := by decide +kernel

/-- The page is prepared with a default that is not in the registry, and is not generated. -/
theorem lacksEscape_of_laterError_page :
    ∃ error, ((pageOptions.generator withoutEscapeHtml).generate preparedPage none).result =
      .error error ∧ error.isAboutDirective := by
  obtain ⟨-, hgenerate⟩ :=
    lacksEscape_of_laterError load_pageText prepare_page_withoutEscapeHtml
  refine (hgenerate pageOptions rfl).mpr ⟨⟨2⟩, by decide +kernel, ⟨7⟩, by decide +kernel, ?_⟩
  exact ⟨.data ["user"], .html, [⟨"|truncate", [.data ["limit"], .not (.bidi .startEdge)]⟩],
    by decide +kernel, by decide⟩

/-- Not all directive errors are found by preparation. -/
theorem not_all_directive_errors_in_prepare :
    ¬ ∀ (fresh : ℕ) (text : String) (t t' : Tree) (registry : Registry) (b : Backend)
        (error : CompileError), Tree.load fresh text = .ok t →
        t.prepare registry (some b) = (.ok (), t') → LaterError t t' registry b error →
        error.isAboutDirective = false := by
  intro h
  have hgenerate : ((pageOptions.generator withoutEscapeHtml).generate preparedPage none).result =
      .error (.unknownDirective "|escapeHtml"
        (some "\x7b$user |escapeHtml |truncate:$limit,not 'left'\x7d")) := by
    decide +kernel
  have hno := h 0 pageText page preparedPage withoutEscapeHtml .jsSource _ load_pageText
    prepare_page_withoutEscapeHtml (.generate rfl hgenerate)
  cases hno

end Tree

end TemplateLang
