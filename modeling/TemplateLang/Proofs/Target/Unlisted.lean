import TemplateLang.Proofs.Direction.Literals
import TemplateLang.Proofs.Message.Remaining
import TemplateLang.Proofs.Render.DataFault
import TemplateLang.Proofs.Render.Unlisted
import TemplateLang.Proofs.Target.Dissolved
import TemplateLang.Proofs.Target.Progress

/-! A bundle that lists no message of a tree changes nothing. Replacing messages then only puts
their content in their places, which emission reads as if it were still inside them; folding the
direction keeps the two trees in step, and rendering asks the bundle in vain. -/

namespace TemplateLang

namespace Tree

variable {t t' : Tree} {n : NodeRef} {registry : Registry} {backend : Option Backend}
  {bundle : Option Bundle}

/-! ### Messages that a bundle does not list -/

theorem Consistent.unlisted_view_iff (h : t.Consistent) :
    (t.view n).Unlisted bundle ↔
      ∀ x, t.Reaches n x → View.translation bundle (t.kind x) = none := by
  constructor
  · intro hv x hx
    have hw := hv (t.view x) (h.mem_nodes_view.mpr ⟨x, hx, rfl⟩)
    rwa [kind_view] at hw
  · intro hx w hw
    obtain ⟨x, hreach, rfl⟩ := h.mem_nodes_view.mp hw
    rw [kind_view]
    exact hx x hreach

theorem translation_of_level_ne {k : NodeKind} (h : k.level ≠ .message) :
    View.translation bundle k = none := by
  cases k with
  | msg key desc => exact absurd rfl h
  | _ => rfl

/-- Preparing a tree leaves its messages. -/
theorem Loaded.translation_prepare (h : t.Loaded)
    (hp : t.prepare registry backend = (.ok (), t')) (hn : t.Has n) :
    View.translation bundle (t'.kind n) = View.translation bundle (t.kind n) := by
  rw [h.kind_prepare hp hn]
  cases hk : t.kind n with
  | print e calls escape =>
    refine (translation_of_level_ne fun hlevel => ?_).trans rfl
    rw [NodeKind.level_insertEscape, NodeKind.level_markSite] at hlevel
    cases hlevel
  | _ => rfl

theorem Loaded.unlisted_prepare (h : t.Loaded)
    (hp : t.prepare registry backend = (.ok (), t')) (hv : (t.view root).Unlisted bundle) :
    (t'.view root).Unlisted bundle := by
  rw [(h.prepare hp).consistent.unlisted_view_iff]
  intro x hx
  have hx' := (sameShape_prepare hp).reaches.mp hx
  rw [h.translation_prepare hp (hx'.has h.consistent.has_root)]
  exact h.consistent.unlisted_view_iff.mp hv x hx'

/-! ### Generation -/

/-- Messages that are not listed can be replaced. -/
theorem Formed.insertMessages_of_unlisted (h : t.Formed) (hv : (t.view root).Unlisted bundle) :
    ∃ t₁, t.insertMessages bundle = (.ok (), t₁) := by
  refine h.insertMessages_ok_iff.mpr fun n hn parts hparts => ?_
  rw [kind_view, h.consistent.unlisted_view_iff.mp hv n hn.reaches] at hparts
  cases hparts

/-- Folded in one direction, a template with its messages replaced shows the same code as one
without. -/
theorem Localized.dissolve_foldDirection {new : NodeRef → List NodeRef} (h : t.Formed)
    (hl : Localized t t' bundle (t.view root).outerMessages new)
    (hv : (t.view root).Unlisted bundle) (dir : Direction)
    (hn : n ∈ t.files.flatMap t.children) :
    ((t'.foldDirection dir).2.view n).dissolve = ((t.foldDirection dir).2.view n).dissolve := by
  obtain ⟨hreach, hdepth⟩ := h.of_mem_files hn
  have hreach' : t'.Reaches root n :=
    (hl.formed.of_mem_files ((hl.sameTemplates h).flatMap_eq ▸ hn)).1
  have hc := h.consistent
  have hunlisted : (t.view n).Unlisted bundle := hc.unlisted_view_iff.mpr fun x hx =>
    hc.unlisted_view_iff.mp hv x (hreach.trans hx)
  have hlocal := hl.localized_view h (h.outside_of_depth_lt hreach (by omega))
  have hsame : (t'.view n).dissolve = (t.view n).dissolve := by
    calc (t'.view n).dissolve = [(t'.view n).anonymous].flatMap View.dissolve := by
          rw [List.flatMap_singleton, View.dissolve_anonymous]
      _ = ((t.view n).localize bundle).flatMap View.dissolve := by
          rw [hlocal, List.flatMap_map]
          exact List.flatMap_congr fun v _ => v.dissolve_anonymous
      _ = (t.view n).dissolve := hunlisted.dissolve_localize
  rw [(hl.formed.mapsExprs_foldDirection dir).view hl.formed.consistent hreach',
    (h.mapsExprs_foldDirection dir).view hc hreach, View.dissolve_mapExprs,
    View.dissolve_mapExprs, hsame]

/-- With its messages replaced a tree is emitted as without. -/
theorem Localized.alike_emit {new : NodeRef → List NodeRef} (h : t.Formed) (ho : t.Opened)
    (hl : Localized t t' bundle (t.view root).outerMessages new)
    (hv : (t.view root).Unlisted bundle) (d : Dialect) (registry : Registry) (dir : Direction)
    (templates : TemplateSet) :
    Dialect.Alike ((t'.foldDirection dir).2.emit d registry templates)
      ((t.foldDirection dir).2.emit d registry templates) := by
  have hf := h.foldDirection dir
  have hf' := hl.formed.foldDirection dir
  have hfold := h.sameTemplates_foldDirection dir
  have hfold' := hl.formed.sameTemplates_foldDirection dir
  have hs : SameTemplates (t'.foldDirection dir).2 (t.foldDirection dir).2 :=
    hfold'.symm.trans ((hl.sameTemplates h).symm.trans hfold)
  refine d.alike_emit registry hf'.consistent hf.consistent hs fun n hn ns w => ?_
  rw [hfold'.flatMap_eq, (hl.sameTemplates h).flatMap_eq] at hn
  have hnot : ∀ {t₁ : Tree}, t₁.Formed → n ∈ t₁.files.flatMap t₁.children →
      (t₁.view n).kind.isMessage = false := by
    intro t₁ h₁ hn₁
    obtain ⟨hreach, hdepth⟩ := h₁.of_mem_files hn₁
    rw [kind_view]
    exact (h₁.outside_of_depth_lt hreach (by omega)).2 n hreach .refl
  -- both bodies are emitted as the one dissolved body
  have hbody : ((t'.foldDirection dir).2.view n).children.flatMap View.dissolve =
      ((t.foldDirection dir).2.view n).children.flatMap View.dissolve := by
    have hdissolve := hl.dissolve_foldDirection h hv dir hn
    rw [View.dissolve_of_not_isMessage (hnot hf' (by
        rw [hfold'.flatMap_eq, (hl.sameTemplates h).flatMap_eq]; exact hn)),
      View.dissolve_of_not_isMessage (hnot hf (by rw [hfold.flatMap_eq]; exact hn))] at hdissolve
    exact congrArg View.children (List.singleton_inj.mp hdissolve)
  have hside : ∀ {t₁ : Tree}, t₁.Formed → t₁.Opened →
      Dialect.Alike (d.emitNodes registry ns w (t₁.view n).children)
        (d.emitNodes registry ns w ((t₁.view n).children.flatMap View.dissolve)) :=
    fun h₁ ho₁ => (d.alike_dissolve registry (h₁.shaped_view ho₁ n)).2 w
  have hleft := hside hf' ((hl.opened ho).foldDirection dir)
  rw [hbody] at hleft
  exact hleft.trans (hside hf (ho.foldDirection dir)).symm

/-- Generation with the bundle and without it give the same units, or both fail. -/
theorem Emittable.alike_generate (h : t.Emittable) (g : Generator) {b : Bundle}
    (hv : (t.view root).Unlisted (some b)) (hdir : g.direction (some b) = g.direction none) :
    Dialect.Alike (g.generate t (some b)).result (g.generate t none).result := by
  obtain ⟨t₁, ht₁⟩ := h.toFormed.insertMessages_of_unlisted hv
  obtain ⟨new, hl⟩ := h.toFormed.of_insertMessages ht₁
  have hwith : (g.generate t (some b)).result =
      (g.generateWithFrame t₁ (some b) .empty).result := by
    rw [Generator.generate, Generator.generateInScope, ht₁]
  have hwithout : (g.generate t none).result = (g.generateWithFrame t none .empty).result := rfl
  rw [hwith, hwithout, (g.generateWithFrame_eq h.toFormed h.named none).2,
    (g.generateWithFrame_eq hl.formed ((hl.sameTemplates h.toFormed).named h.named) (some b)).2,
    hdir, (hl.sameTemplates h.toFormed).definitions_eq]
  exact hl.alike_emit h.toFormed h.opened hv _ _ _ _

end Tree

/-! ### The same output -/

theorem Dialect.Alike.toOption_eq {α : Type} {x y : Except CompileError α}
    (h : Dialect.Alike x y) : x.toOption = y.toOption := by
  rcases h.cases with ⟨a, rfl, rfl⟩ | ⟨e, e', rfl, rfl, -⟩
  · rfl
  · rfl

namespace Tree

/-- A bundle that has no entry for any message of a tree, and leaves the direction as it is without
one, changes nothing: source is generated with the same units or fails with the bundle and
without it, and every template is rendered to the same result. -/
theorem unlisted_changes_nothing {fresh : ℕ} {text : String} {t : Tree} {b : Bundle}
    (hload : Tree.load fresh text = .ok t)
    (hkeys : ∀ n ∈ t.descendants root, ∀ key desc, t.kind n = .msg key desc →
      b.get? key = none) :
    (∀ (o : CompileOptions) (registry registry' : Registry) (backend : Option Backend) (t' : Tree),
      t.prepare registry backend = (.ok (), t') →
      Direction.resolve o.bidiDir (some b.locale) = Direction.resolve o.bidiDir none →
      ((o.generator registry').generate t' (some b)).result.toOption =
        ((o.generator registry').generate t' none).result.toOption) ∧
    ∀ (registry : Registry) (bidiDir : ℤ) (policy : OverridePolicy) (r : Renderer),
      Renderer.ofTree t registry bidiDir policy = .ok r →
      Direction.resolve bidiDir (some b.locale) = Direction.resolve bidiDir none →
      ∀ (ns : Option String) (name : String) (d : Data),
        (r.forNamespace ns).render name d (some b) = (r.forNamespace ns).render name d none := by
  have h := loaded_of_load hload
  have hc := h.consistent
  have hv : (t.view root).Unlisted (some b) := by
    rw [hc.unlisted_view_iff]
    intro x hx
    cases hk : t.kind x with
    | msg key desc => exact hkeys x (hc.mem_descendants.mpr hx) key desc hk
    | _ => rfl
  refine ⟨fun o registry registry' backend t' hp hdir => ?_,
    fun registry bidiDir policy r hr hdir ns name d => ?_⟩
  · have hemit := h.emittable_prepare (opened_of_load hload) hp
    exact (hemit.alike_generate (o.generator registry') (h.unlisted_prepare hp hv)
      hdir).toOption_eq
  · obtain ⟨hp, heq⟩ := Renderer.of_ofTree h hr
    have hbidi : r.bidiDir = bidiDir := by rw [heq]
    refine (r.forNamespace ns).render_unlisted (fun name n hn => ?_) (by rwa [← hbidi] at hdir)
      name d
    have htemplates : r.templates = .ofDefinitions policy r.tree.definitions := by rw [heq]
    have hmem := ((h.named_prepare hp).of_get? (htemplates ▸ hn)).2.1
    have h' := (h.prepare hp).toFormed
    have hv' := h'.consistent.unlisted_view_iff.mp (h.unlisted_prepare hp hv)
    exact h'.consistent.unlisted_view_iff.mpr fun x hx =>
      hv' x ((h'.of_mem_files hmem).1.trans hx)

/-- One message inside another, and a bundle that has neither. -/
theorem unlisted_changes_nothing_nested :
    (∃ t', nested.prepare .full (some .jsSource) = (.ok (), t') ∧
      (((pageOptions.generator .full).generate t' none).result.toOption).isSome ∧
      ((pageOptions.generator .full).generate t' (some (bundleOf "other"))).result.toOption =
        ((pageOptions.generator .full).generate t' none).result.toOption) ∧
    ∃ r, Renderer.ofTree nested .full 0 .keepLast = .ok r ∧
      ((r.forNamespace (some "app")).render ".a" .empty none).toOption = some "AB" ∧
      (r.forNamespace (some "app")).render ".a" .empty (some (bundleOf "other")) =
        (r.forNamespace (some "app")).render ".a" .empty none := by
  have hkeys : ∀ n ∈ nested.descendants root, ∀ key desc, nested.kind n = .msg key desc →
      (bundleOf "other").get? key = none := by
    intro n hn key desc hk
    have hall : ∀ n ∈ nested.descendants root,
        View.translation (some (bundleOf "other")) (nested.kind n) = none := by decide +kernel
    have hnone := hall n hn
    rwa [hk] at hnone
  obtain ⟨hgenerate, hrender⟩ := unlisted_changes_nothing load_nestedText hkeys
  refine ⟨⟨(nested.prepare .full (some .jsSource)).2, Prod.ext (by decide +kernel) rfl,
    by decide +kernel, ?_⟩, ?_⟩
  · exact hgenerate pageOptions .full .full (some .jsSource) _
      (Prod.ext (by decide +kernel) rfl) (by decide +kernel)
  · have hsome : ((Renderer.ofTree nested .full 0 .keepLast).toOption.map fun r =>
        ((r.forNamespace (some "app")).render ".a" .empty none).toOption) = some (some "AB") := by
      decide +kernel
    cases hr : Renderer.ofTree nested .full 0 .keepLast with
    | error e =>
      rw [hr] at hsome
      cases hsome
    | ok r =>
      rw [hr] at hsome
      exact ⟨r, rfl, Option.some.inj hsome,
        hrender .full 0 .keepLast r hr (by decide +kernel) (some "app") ".a" .empty⟩

end Tree

end TemplateLang
