import TemplateLang.Proofs.Render.DataFault
import TemplateLang.Proofs.Target.Progress
import TemplateLang.Proofs.Target.Structure

/-! One definition for each template. The set of templates in effect has the first or the last
definition of each name; generation writes these nodes and no others, each in the unit of its
file, as a section with the statements of its body; and the interpreter takes a template that is
rendered or called from the same set. -/

namespace TemplateLang

variable {t t' t₁ : Tree} {n : NodeRef} {name : String} {registry : Registry}
  {backend : Option Backend} {policy : OverridePolicy} {templates : TemplateSet}
  {o : CompileOptions} {units : List OutputUnit}

/-! ### Definitions in effect -/

namespace TemplateSet

/-- A name that is listed once has the definition that it is listed with. -/
theorem mem_entries_iff (h : templates.names.Nodup) :
    (name, n) ∈ templates.entries ↔ templates.get? name = some n := by
  obtain ⟨entries⟩ := templates
  change (entries.map (·.1)).Nodup at h
  change _ ↔ (entries.find? (·.1 = name)).map (·.2) = some n
  induction entries with
  | nil => simp
  | cons entry entries ih =>
    obtain ⟨other, m⟩ := entry
    obtain ⟨hother, hrest⟩ := List.nodup_cons.mp h
    rw [List.mem_cons, List.find?_cons]
    by_cases ho : other = name
    · obtain rfl := ho
      have hnot : (other, n) ∉ entries := fun hm =>
        hother (List.mem_map.mpr ⟨(other, n), hm, rfl⟩)
      simp [hnot, eq_comm]
    · simpa [ho, Ne.symm ho] using ih hrest

end TemplateSet

namespace Tree

/-- The templates below a file that are in effect, in order of the source. -/
def inEffectBelow (t : Tree) (templates : TemplateSet) (f : NodeRef) : List NodeRef :=
  (t.children f).filter (templates.isInEffect t)

theorem inEffect_eq_flatMap (t : Tree) (templates : TemplateSet) :
    t.inEffect templates = t.files.flatMap (t.inEffectBelow templates) :=
  List.filter_flatMap

theorem Consistent.nodup_inEffect (h : t.Consistent) (templates : TemplateSet) :
    (t.inEffect templates).Nodup := by
  refine List.Nodup.filter _ (List.nodup_flatMap.mpr ⟨fun f _ => h.nodup_children f, ?_⟩)
  refine (h.nodup_children root).imp fun {f g} hne => List.disjoint_left.mpr fun n hf hg => ?_
  have hparent := (h.mem_children f n).mp hf
  rw [(h.mem_children g n).mp hg] at hparent
  exact hne (Option.some.inj hparent).symm

/-- The templates in effect are the definitions of the set, each once. -/
theorem Consistent.perm_inEffect (h : t.Consistent) (policy : OverridePolicy) :
    ((t.inEffect (.ofDefinitions policy t.definitions)).filterMap t.definition?).Perm
      (TemplateSet.ofDefinitions policy t.definitions).entries := by
  have hnames := TemplateSet.nodup_names_ofDefinitions policy t.definitions
  have hinjective : ∀ m m' e, e ∈ t.definition? m → e ∈ t.definition? m' → m = m' := by
    rintro m m' ⟨name, n⟩ hm hm'
    exact (definition?_eq_some.mp hm).1.trans (definition?_eq_some.mp hm').1.symm
  refine (List.perm_ext_iff_of_nodup ((h.nodup_inEffect _).filterMap hinjective)
    (.of_map _ hnames)).mpr ?_
  rintro ⟨name, n⟩
  -- Both sides have no repetition, so it is enough that the set has a node for its name exactly
  -- when the node is in effect.
  rw [mem_filterMap_definition?, TemplateSet.mem_entries_iff hnames, inEffect, List.mem_filter]
  constructor
  · rintro ⟨⟨-, hin⟩, isOverride, autoescape, hk⟩
    rw [TemplateSet.isInEffect, hk] at hin
    exact of_decide_eq_true hin
  · intro hget
    have hpick := hget
    rw [TemplateSet.get?_ofDefinitions] at hpick
    obtain ⟨hn, isOverride, autoescape, hk⟩ := mem_definitions.mp (OverridePolicy.mem_of_pick hpick)
    refine ⟨⟨hn, ?_⟩, isOverride, autoescape, hk⟩
    rw [TemplateSet.isInEffect, hk]
    exact decide_eq_true hget

end Tree

/-! ### Units -/

/-- The section of a template, in a file of the namespace `ns` and at the level `level`: the code
that emission writes for the template by itself. Its lines are the head for the name of the
template, the statements that the nodes below the template outline, and the end. -/
structure IsSection (o : CompileOptions) (registry : Registry) (ns : String) (level : ℕ) (v : View)
    (text name : String) (body : List Statement) : Prop where
  emitted : o.dialect.templateCode registry ns level v = .ok text
  kind_eq : ∃ isOverride autoescape, v.kind = .template name isOverride autoescape
  outline : outlineBody o.dialect registry (o.callTarget ns) v.children = .ok body
  text_eq : text =
    String.join ((o.dialect.templateLines o.target.bodyNames level name body).map CodeLine.render)

theorem exists_isSection {ns text : String} {level : ℕ} {v : View}
    (h : o.dialect.templateCode registry ns level v = .ok text) :
    ∃ name body, IsSection o registry ns level v text name body := by
  obtain ⟨name, body, hkind, hbody, htext⟩ := (Dialect.templateCode_eq_ok o.writes).mp h
  exact ⟨name, body, h, hkind, hbody, htext⟩

/-- The unit of the file `f` of `t`. Between its first and last lines it has the sections of the
templates below the file that are in effect, in their order and as they stand in `t₁`. -/
def UnitOf (o : CompileOptions) (registry : Registry) (templates : TemplateSet) (t t₁ : Tree)
    (f : NodeRef) (unit : OutputUnit) : Prop :=
  ∃ path ns texts, t.kind f = .file path ns ∧
    unit.sourcePath = path ∧ unit.fileName = o.dialect.fileName path ns ∧
    unit.code =
      (o.dialect.fileHead path ns).code ++ String.join texts ++ o.dialect.fileEnd path ns ∧
    (∀ n ∈ t.inEffectBelow templates f, t₁.kind n = t.kind n) ∧
    List.Forall₂
      (fun n text => ∃ name body,
        IsSection o registry ns (o.dialect.fileHead path ns).level (t₁.view n) text name body)
      (t.inEffectBelow templates f) texts

namespace Tree

theorem Formed.units_of_emit (h : t.Formed) (h₁ : t₁.Consistent) (hs : SameTemplates t t₁)
    (he : t₁.emit o.dialect registry templates = .ok units) :
    List.Forall₂ (UnitOf o registry templates t t₁) t.files units := by
  rw [emit, hs.files] at he
  refine forall₂_of_mapM_eq_ok he fun f hf unit hunit => ?_
  obtain ⟨-, path, ns, hk⟩ := h.file_of_mem_files hf
  have hk₁ : (t₁.view f).kind = .file path ns := by rw [kind_view, hs.kind_file f hf, hk]
  obtain ⟨hpath, hname, texts, htexts, hcode⟩ :=
    Dialect.emitFile_eq_ok o.writes o.appendsEnd hk₁ hunit
  have hkind : ∀ n ∈ t.children f, t₁.kind n = t.kind n := fun n hn =>
    hs.kind n (List.mem_flatMap.mpr ⟨f, hf, hn⟩)
  have hbelow : ((t₁.children f).filter fun n => templates.isInEffect t₁ n) =
      t.inEffectBelow templates f := by
    rw [hs.children f hf]
    refine List.filter_congr fun n hn => ?_
    rw [TemplateSet.isInEffect, TemplateSet.isInEffect, hkind n hn]
  rw [h₁.children_view, List.filter_map, List.forall₂_map_left_iff] at htexts
  simp only [Function.comp_def, ref_view, hbelow] at htexts
  exact ⟨path, ns, texts, hk, hpath, hname, hcode,
    fun n hn => hkind n (List.mem_of_mem_filter hn), htexts.imp fun _ _ => exists_isSection⟩

/-- What a successful generation writes is emitted from a tree with the same templates. -/
theorem Emittable.emit_of_generate (h : t.Emittable) {g : Generator} {bundle : Option Bundle}
    (hg : (g.generate t bundle).result = .ok units) :
    (g.generate t bundle).tree.Formed ∧ SameTemplates t (g.generate t bundle).tree ∧
      (g.generate t bundle).tree.emit g.dialect g.registry
        (.ofDefinitions g.policy t.definitions) = .ok units := by
  have hframe : ∀ {t₁ : Tree}, t₁.Emittable → SameTemplates t t₁ →
      (g.generateWithFrame t₁ bundle .empty).result = .ok units →
      (g.generateWithFrame t₁ bundle .empty).tree.Formed ∧
        SameTemplates t (g.generateWithFrame t₁ bundle .empty).tree ∧
        (g.generateWithFrame t₁ bundle .empty).tree.emit g.dialect g.registry
          (.ofDefinitions g.policy t.definitions) = .ok units := by
    intro t₁ h₁ hs hu
    obtain ⟨htree, hresult⟩ := g.generateWithFrame_eq h₁.toFormed h₁.named bundle
    rw [hresult, hs.definitions_eq] at hu
    rw [htree]
    exact ⟨h₁.toFormed.foldDirection _, hs.trans (h₁.toFormed.sameTemplates_foldDirection _), hu⟩
  cases bundle with
  | none => exact hframe h (.refl t) hg
  | some bundle =>
    unfold Generator.generate Generator.generateInScope at *
    rcases ht₁ : t.insertMessages (some bundle) with ⟨e | u, t₁⟩
    · simp [ht₁] at hg
    · obtain ⟨new, hl⟩ := h.toFormed.of_insertMessages ht₁
      simp only [ht₁] at hg ⊢
      exact hframe (h.insertMessages ht₁) (hl.sameTemplates h.toFormed) hg

/-- A successful generation writes the units of the files. -/
theorem Emittable.units_of_generate (h : t.Emittable) {bundle : Option Bundle}
    (hg : ((o.generator registry).generate t bundle).result = .ok units) :
    List.Forall₂ (UnitOf o registry (.ofDefinitions o.policy t.definitions) t
      ((o.generator registry).generate t bundle).tree) t.files units := by
  obtain ⟨hformed, hs, he⟩ := h.emit_of_generate hg
  exact h.toFormed.units_of_emit hformed.consistent hs he

/-- All backends take each template from one node, which is the definition in effect of its name:
generation writes a section for each of these nodes, with the statements of its body, in the unit of
its file, and rendering and calls render them. -/
theorem definitions_agree {fresh : ℕ} {text : String} (hload : Tree.load fresh text = .ok t)
    (hprepare : t.prepare registry backend = (.ok (), t')) (policy : OverridePolicy) :
    ∃ templates, TemplateSet.resolve t' policy = .ok templates ∧
      templates.names = (t'.definitions.map (·.1)).eraseDups ∧ templates.names.Nodup ∧
      (∀ name, templates.get? name = policy.pick name t'.definitions) ∧
      ((t'.files.flatMap (t'.inEffectBelow templates)).filterMap t'.definition?).Perm
        templates.entries ∧
      (∀ (o : CompileOptions) (registry' : Registry) (bundle : Option Bundle) units,
        o.policy = policy → ((o.generator registry').generate t' bundle).result = .ok units →
        List.Forall₂ (UnitOf o registry' templates t'
          ((o.generator registry').generate t' bundle).tree) t'.files units) ∧
      ∀ t₁, (t₁ = t ∨ t₁ = t') → ∀ registry' bidiDir r,
        Renderer.ofTree t₁ registry' bidiDir policy = .ok r →
        SameTemplates t' r.tree ∧ r.templates = templates ∧ ∀ name n, templates.get? name = some n →
          (∀ d bundle s, r.renderInScope name d bundle s = r.renderWithFrame n d bundle s) ∧
          ∀ scope callTemplate d passesData,
            (⟨r.tree, r.templates, r.registry, scope⟩ : RenderContext).renderCall callTemplate d name
              passesData = callTemplate (r.tree.view n) (if passesData then d else .empty) := by
  have h := loaded_of_load hload
  have h' := h.prepare hprepare
  have hemit := h.emittable_prepare (opened_of_load hload) hprepare
  refine ⟨.ofDefinitions policy t'.definitions, hemit.named.resolve_eq policy,
    TemplateSet.names_ofDefinitions .., TemplateSet.nodup_names_ofDefinitions ..,
    TemplateSet.get?_ofDefinitions _ _, ?_, ?_, ?_⟩
  · rw [← inEffect_eq_flatMap]
    exact h'.consistent.perm_inEffect policy
  · rintro o registry' bundle units rfl hg
    exact hemit.units_of_generate hg
  · intro t₁ ht registry' bidiDir r hr
    have h₁ : t₁.Loaded ∧ SameTemplates t' t₁.qualifyNames := by
      rcases ht with rfl | rfl
      · exact ⟨h, (h.sameTemplates_prepare hprepare).symm⟩
      · exact ⟨h', h'.toFormed.sameTemplates_qualifyNames hemit.named⟩
    obtain ⟨hp, heq⟩ := Renderer.of_ofTree h₁.1 hr
    have hs := h₁.2.trans (h₁.1.sameTemplates_prepare hp)
    have htemplates : r.templates = .ofDefinitions policy t'.definitions := by
      rw [heq, hs.definitions_eq]
    refine ⟨hs, htemplates, fun name n hn => ?_⟩
    rw [← htemplates] at hn
    refine ⟨fun d bundle s => Renderer.renderInScope_eq h₁.1 hr hn d bundle s, ?_⟩
    intro scope callTemplate d passesData
    simp only [RenderContext.renderCall, hn]

/-- The login of the page is the one of its theme, and each file of the page has its unit. -/
theorem definitions_agree_page :
    TemplateSet.resolve preparedPage .keepLast =
        .ok ⟨[("app.page", ⟨2⟩), ("app.login", ⟨13⟩)]⟩ ∧
      ∃ units, ((pageOptions.generator .full).generate preparedPage none).result = .ok units ∧
        List.Forall₂ (UnitOf pageOptions .full ⟨[("app.page", ⟨2⟩), ("app.login", ⟨13⟩)]⟩
          preparedPage ((pageOptions.generator .full).generate preparedPage none).tree)
          [⟨1⟩, ⟨12⟩] units := by
  obtain ⟨templates, hresolve, -, -, -, -, hunits, -⟩ :=
    definitions_agree load_pageText prepare_page .keepLast
  have hpage : TemplateSet.resolve preparedPage .keepLast =
      .ok ⟨[("app.page", ⟨2⟩), ("app.login", ⟨13⟩)]⟩ := by decide +kernel
  obtain rfl := Except.ok.inj (hresolve.symm.trans hpage)
  have hfiles : preparedPage.files = [⟨1⟩, ⟨12⟩] := by decide +kernel
  have hsome :
      ((pageOptions.generator .full).generate preparedPage none).result.toOption.isSome := by
    decide +kernel
  cases hresult : ((pageOptions.generator .full).generate preparedPage none).result with
  | error e =>
    rw [hresult] at hsome
    cases hsome
  | ok units =>
    rw [← hfiles]
    exact ⟨hpage, units, rfl, hunits pageOptions .full none units rfl hresult⟩

end Tree

end TemplateLang
