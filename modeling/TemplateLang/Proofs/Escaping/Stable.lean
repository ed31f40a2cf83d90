import TemplateLang.Proofs.Escaping.Supported
import TemplateLang.Proofs.Name.Full

/-! Preparing a prepared tree. Each step of preparation finds its work done: names are full, marked
prints keep their contexts, a print with a context has a directive that cancels the escape, and
the directives that were put in front pass the check like those of the source. -/

namespace TemplateLang

variable {t t' : Tree} {n : NodeRef} {registry : Registry} {backend : Option Backend}

/-- A node without a partial name keeps its name. -/
theorem NodeKind.qualifyName_eq_self {k : NodeKind}
    (h : ∀ name, k.name? = some name → isPartialName name = false) (ns : String) :
    (qualifyName ns k).2 = k := by
  cases k with
  | template name isOverride autoescape =>
    rw [qualifyName, qualify, h name rfl]
    rfl
  | call callee passesData =>
    rw [qualifyName, qualify, h callee rfl]
    rfl
  | _ => rfl

namespace Tree

/-! ### Each step again -/

theorem Loaded.qualifyNames_prepare (h : t.Loaded) (hc : t.NamespacesComplete)
    (hp : t.prepare registry backend = (.ok (), t')) : t'.qualifyNames = t' := by
  have h' := h.prepare hp
  refine h'.consistent.mapKinds_eq_self "" fun n hn => ?_
  have hhas' := hn.has h'.consistent.has_root
  have hhas := (sameShape_prepare hp).has.mp hhas'
  exact (h'.kind_qualifyNames hhas').trans
    (NodeKind.qualifyName_eq_self (fun name hname => h.full_prepare hc hp hhas hname) _)

theorem Loaded.markEscapingSites_prepare (h : t.Loaded)
    (hp : t.prepare registry backend = (.ok (), t')) : t'.markEscapingSites = t' := by
  have h' := h.prepare hp
  refine h'.consistent.mapKinds_eq_self false fun n hn => ?_
  have hhas' := hn.has h'.consistent.has_root
  have hhas := (sameShape_prepare hp).has.mp hhas'
  have hkind := h'.kind_markEscapingSites hhas'
  rw [inherited_prepare hp, h.kind_prepare hp hhas, NodeKind.markSite_insertEscape,
    ← h.kind_prepare hp hhas] at hkind
  exact hkind

/-- The names of the templates are those that passed the rule on repeated names. -/
theorem Loaded.checkOverrides_prepare (h : t.Loaded)
    (hp : t.prepare registry backend = (.ok (), t')) : t'.checkOverrides = .ok () :=
  (h.sameTemplates_prepare hp).checkOverrides_eq_ok h.qualifyNames.toFormed (h.prepare hp).toFormed
    (checkOverrides_of_prepare hp)

/-- The directives of the source passed, and the defaults of contexts pass for every backend. -/
theorem Loaded.checkDirectives_prepare (h : t.Loaded)
    (hdefaults : ∀ c : EscapeContext, registry.contains c.directive)
    (hp : t.prepare registry backend = (.ok (), t')) :
    t'.checkDirectives registry backend = .ok () := by
  obtain ⟨hcheck, -⟩ := prepare_eq_ok hp
  refine (h.prepare hp).checkDirectives_eq_ok.mpr fun n hn' e calls escape hk => ?_
  have hn : t.Has n := (sameShape_prepare hp).has.mp hn'
  have hnq : t.qualifyNames.Has n := (sameShape_mapKinds t _ _ _).has.mpr hn
  have hkind := h.kind_prepare hp hn
  rw [← h.kind_qualifyNames hn] at hkind
  obtain ⟨calls₀, escape₀, hk₀, hcalls⟩ := NodeKind.print_of_insertEscape (hkind.symm.trans hk)
  have hpass : ∀ call ∈ calls₀, registry.Passes backend call := fun call hc =>
    checkCall_eq_ok_iff_passes.mp
      (h.qualifyNames.checkDirectives_eq_ok.mp hcheck n hnq e calls₀ escape₀ hk₀ call hc)
  intro call hc
  rw [checkCall_eq_ok_iff_passes]
  rcases hcalls with rfl | ⟨context, -, rfl⟩
  · exact hpass call hc
  · rcases List.mem_cons.mp hc with rfl | hc
    · exact EscapeContext.passes_default (hdefaults context) backend
    · exact hpass call hc

/-- Every print that needs a default directive has it, so that none is inserted. -/
theorem Loaded.insertEscapes_prepare (h : t.Loaded)
    (hp : t.prepare registry backend = (.ok (), t'))
    (hcheck : t'.checkDirectives registry backend = .ok ()) :
    t'.insertEscapes registry = (.ok 0, t') := by
  have h' := h.prepare hp
  have hstep : ∀ n, t'.Has n →
      NodeKind.insertEscape registry (.ok 0) (t'.kind n) = (.ok 0, t'.kind n) := by
    intro n hn'
    have hkind := h.kind_prepare hp ((sameShape_prepare hp).has.mp hn')
    exact (NodeKind.insertEscape_again hkind.symm fun e calls escape hk call hc =>
      h'.lookup_of_checkDirectives hcheck hn' hk hc).2
  -- the count is zero inside every node
  have hscoped : Scoped t' (fun kind => !kind.isPrint) (NodeKind.insertEscape registry) t'.kind
      (fun _ s => s = .ok 0) := by
    refine ⟨fun x hx => ?_, fun x p s hparent hs => ?_, fun _ _ _ _ hs => hs⟩
    · exact h'.leveled.children_eq_nil h'.consistent (NodeKind.leaf_of_isPrint _ hx)
    · subst hs
      rw [hstep x (has_of_parent hparent)]
      exact ⟨rfl, rfl⟩
  have hroot := hstep root h'.consistent.has_root
  have hkind : (NodeKind.insertEscape registry (.ok 0) (t'.kind root)).2 = t'.kind root := by
    rw [hroot]
  have hcount : (NodeKind.insertEscape registry (.ok 0) (t'.kind root)).1 = .ok 0 := by
    rw [hroot]
  refine Prod.ext (h'.consistent.mapKinds_view hscoped hkind hcount).2 ?_
  exact h'.consistent.mapKinds_eq_self (.ok 0) fun n hn =>
    h'.consistent.kind_mapKinds hscoped hkind hcount hn

/-! ### The whole preparation again -/

/-- Where all namespaces complete names, a prepared tree is prepared again without any change. -/
theorem Loaded.prepare_prepare (h : t.Loaded) (hc : t.NamespacesComplete)
    (hdefaults : ∀ c : EscapeContext, registry.contains c.directive)
    (hp : t.prepare registry backend = (.ok (), t')) :
    t'.prepare registry backend = (.ok (), t') ∧
      (t'.qualifyNames.markEscapingSites.insertEscapes registry).1 = .ok 0 := by
  have hcheck := h.checkDirectives_prepare hdefaults hp
  have hinsert := h.insertEscapes_prepare hp hcheck
  rw [Tree.prepare, h.qualifyNames_prepare hc hp, h.checkOverrides_prepare hp, hcheck,
    h.markEscapingSites_prepare hp, hinsert]
  exact ⟨rfl, rfl⟩

/-- Preparation with all directives is idempotent where all namespaces complete names: it succeeds
again, leaves the tree as it is and inserts no directive. -/
theorem prepare_idempotent {fresh : ℕ} {text : String} (hload : Tree.load fresh text = .ok t)
    (hnamespaces : t.NamespacesComplete) (hprepare : t.prepare .full backend = (.ok (), t')) :
    t'.prepare .full backend = (.ok (), t') ∧
      (t'.qualifyNames.markEscapingSites.insertEscapes .full).1 = .ok 0 :=
  (loaded_of_load hload).prepare_prepare hnamespaces (fun c => by cases c <;> rfl) hprepare

/-- Preparing the prepared page changes nothing. -/
theorem prepare_idempotent_page :
    preparedPage.prepare .full (some .jsSource) = (.ok (), preparedPage) ∧
      (preparedPage.qualifyNames.markEscapingSites.insertEscapes .full).1 = .ok 0 :=
  prepare_idempotent load_pageText (by decide +kernel) prepare_page

end Tree

end TemplateLang
