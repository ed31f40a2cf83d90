import TemplateLang.Name.Overrides
import TemplateLang.Proofs.Name.TemplateSet

/-! The rule on repeated names. It looks at the files of a tree and at the templates below them, in
order, so that what passes is the same for trees with the same templates; the errors quote the
paths of the files. -/

namespace TemplateLang.Tree

variable {t t' : Tree} {seen seen' : FirstTemplates} {n : NodeRef}
  {ns : List NodeRef}

/-- The nodes that the rule looks at. -/
theorem Consistent.nodesWhere_holdsTemplates (h : t.Consistent) (hroot : t.kind root = .fileSet)
    (hfile : ∀ f ∈ t.files, t.level f = .file)
    (htemplate : ∀ f ∈ t.files, ∀ n ∈ t.children f, t.level n = .template) :
    (t.view root).nodesWhere NodeKind.holdsTemplates =
      (root :: t.files.flatMap fun f => f :: t.children f).map t.view := by
  have hfiles : ∀ f ∈ t.files, (t.view f).nodesWhere NodeKind.holdsTemplates =
      (f :: t.children f).map t.view := by
    intro f hf
    have hleaf : ∀ n ∈ t.children f,
        (t.view n).nodesWhere NodeKind.holdsTemplates = [t.view n] := by
      intro n hn
      obtain ⟨name, isOverride, autoescape, hkn⟩ :=
        NodeKind.level_eq_template.mp (htemplate f hf n hn)
      rw [h.view_eq n, hkn]
      rfl
    have hholds : NodeKind.holdsTemplates (t.kind f) := by
      obtain ⟨path, ns, hk⟩ := NodeKind.level_eq_file.mp (hfile f hf)
      rw [hk]
      rfl
    rw [h.view_eq f, View.nodesWhere, if_pos hholds, View.listNodesWhere_eq_flatMap,
      List.flatMap_map, List.flatMap_congr hleaf, List.map_cons, ← h.view_eq f,
      List.map_eq_flatMap]
  have hholds : NodeKind.holdsTemplates (t.kind root) := by
    rw [hroot]
    rfl
  rw [h.view_eq root, View.nodesWhere, if_pos hholds, View.listNodesWhere_eq_flatMap,
    List.flatMap_map, List.map_cons, ← h.view_eq root, List.map_flatMap]
  exact congrArg _ (List.flatMap_congr hfiles)

theorem Formed.nodesWhere_holdsTemplates (h : t.Formed) :
    (t.view root).nodesWhere NodeKind.holdsTemplates =
      (root :: t.files.flatMap fun f => f :: t.children f).map t.view :=
  h.consistent.nodesWhere_holdsTemplates h.kind_root
    (fun _ hf => NodeKind.level_eq_file.mpr (h.file_of_mem_files hf).2)
    fun _ hf _ => h.level_of_mem_file hf

/-- What passes depends on the kinds of the nodes. -/
theorem checkOverride_eq_ok_of_kind (h : t'.kind n = t.kind n)
    (hpass : t.checkOverride seen (t.view n) = .ok seen') :
    t'.checkOverride seen (t'.view n) = .ok seen' := by
  rw [checkOverride, kind_view, ref_view] at hpass ⊢
  rw [h]
  cases hk : t.kind n with
  | template name isOverride autoescape =>
    simp only [hk] at hpass ⊢
    by_cases hpartial : isPartialName name
    · simp [hpartial] at hpass
    · rw [if_neg hpartial] at hpass ⊢
      cases hfind : seen.find? (·.1 = name) with
      | none =>
        simp only [hfind] at hpass ⊢
        exact hpass
      | some first =>
        simp only [hfind] at hpass ⊢
        cases isOverride with
        | true => exact hpass
        | false => cases hpass
  | _ =>
    rw [hk] at hpass
    exact hpass

theorem foldlM_checkOverride_eq_ok_of_kind (h : ∀ n ∈ ns, t'.kind n = t.kind n)
    (hpass : (ns.map t.view).foldlM t.checkOverride seen = .ok seen') :
    (ns.map t'.view).foldlM t'.checkOverride seen = .ok seen' := by
  induction ns generalizing seen with
  | nil => exact hpass
  | cons n ns ih =>
    rw [List.map_cons, List.foldlM_cons] at hpass ⊢
    obtain ⟨seen₁, hn, hrest⟩ := bind_eq_ok.mp hpass
    rw [checkOverride_eq_ok_of_kind (h n (List.mem_cons_self ..)) hn, ok_bind]
    exact ih (fun m hm => h m (List.mem_cons_of_mem _ hm)) hrest

/-- Trees with the same templates pass the rule alike. -/
theorem SameTemplates.checkOverrides_eq_ok (hs : SameTemplates t t') (h : t.Formed)
    (h' : t'.Formed) (hpass : t.checkOverrides = .ok ()) : t'.checkOverrides = .ok () := by
  obtain ⟨seen, hseen, -⟩ := bind_eq_ok.mp hpass
  rw [h.nodesWhere_holdsTemplates] at hseen
  have hnodes : (root :: t'.files.flatMap fun f => f :: t'.children f) =
      root :: t.files.flatMap fun f => f :: t.children f := by
    rw [hs.files]
    exact congrArg _ (List.flatMap_congr fun f hf => by rw [hs.children f hf])
  have hkinds : ∀ n ∈ root :: t.files.flatMap fun f => f :: t.children f,
      t'.kind n = t.kind n := by
    intro n hn
    rcases List.mem_cons.mp hn with rfl | hn
    · rw [h.kind_root, h'.kind_root]
    · obtain ⟨f, hf, hnf⟩ := List.mem_flatMap.mp hn
      rcases List.mem_cons.mp hnf with rfl | hnf
      · exact hs.kind_file n hf
      · exact hs.kind n (List.mem_flatMap.mpr ⟨f, hf, hnf⟩)
  rw [checkOverrides, h'.nodesWhere_holdsTemplates, hnodes,
    foldlM_checkOverride_eq_ok_of_kind hkinds hseen, ok_bind]
  rfl

end TemplateLang.Tree
