import TemplateLang.Name.TemplateSet
import TemplateLang.Proofs.Result
import TemplateLang.Proofs.Tree.Levels

/-! The templates in effect. They are definitions that stand below the files of the tree, and they
depend on these nodes alone: trees with the same templates below the same files have the same
definitions in effect. -/

namespace TemplateLang

variable {t t' : Tree} {n : NodeRef}

namespace TemplateSet

variable {policy : OverridePolicy} {s templates : TemplateSet} {ns : List NodeRef} {name : String}

theorem foldlM_insertNode_congr (h : ∀ n ∈ ns, t'.kind n = t.kind n) (s : TemplateSet) :
    ns.foldlM (insertNode t' policy) s = ns.foldlM (insertNode t policy) s := by
  induction ns generalizing s with
  | nil => rfl
  | cons n ns ih =>
    rw [List.foldlM_cons, List.foldlM_cons]
    have hn : insertNode t' policy s n = insertNode t policy s n := by
      rw [insertNode, insertNode, h n (List.mem_cons_self ..)]
    rw [hn]
    exact congrArg _ (funext fun s => ih (fun m hm => h m (List.mem_cons_of_mem _ hm)) s)

theorem mem_replace {entries : List (String × NodeRef)} {e : String × NodeRef}
    (h : e ∈ replace name n entries) : e ∈ entries ∨ e.2 = n := by
  induction entries with
  | nil => exact .inl h
  | cons entry entries ih =>
    obtain ⟨other, old⟩ := entry
    rw [replace] at h
    split at h
    · rcases List.mem_cons.mp h with rfl | h
      · exact .inr rfl
      · exact .inl (List.mem_cons_of_mem _ h)
    · rcases List.mem_cons.mp h with rfl | h
      · exact .inl (List.mem_cons_self ..)
      · exact (ih h).imp_left (List.mem_cons_of_mem _)

theorem mem_insert {e : String × NodeRef} (h : e ∈ (s.insert policy name n).entries) :
    e ∈ s.entries ∨ e.2 = n := by
  unfold insert at h
  cases hget : s.get? name with
  | none =>
    rw [hget] at h
    rcases List.mem_append.mp h with h | h
    · exact .inl h
    · obtain rfl := List.mem_singleton.mp h
      exact .inr rfl
  | some old =>
    rw [hget] at h
    cases policy with
    | keepFirst => exact .inl h
    | keepLast => exact mem_replace h

theorem mem_of_insertNode {e : String × NodeRef} (h : insertNode t policy s n = .ok templates)
    (he : e ∈ templates.entries) : e ∈ s.entries ∨ e.2 = n := by
  unfold insertNode at h
  split at h
  · split at h
    · cases h
    · obtain rfl := Except.ok.inj h
      exact mem_insert he
  · obtain rfl := Except.ok.inj h
    exact .inl he

theorem mem_of_foldlM {e : String × NodeRef}
    (h : ns.foldlM (insertNode t policy) s = .ok templates) (he : e ∈ templates.entries) :
    e ∈ s.entries ∨ e.2 ∈ ns := by
  induction ns generalizing s with
  | nil =>
    obtain rfl : s = templates := Except.ok.inj h
    exact .inl he
  | cons n ns ih =>
    rw [List.foldlM_cons] at h
    obtain ⟨s', hs', hrest⟩ := bind_eq_ok.mp h
    rcases ih hrest with hmem | hmem
    · rcases mem_of_insertNode hs' hmem with hmem | rfl
      · exact .inl hmem
      · exact .inr (List.mem_cons_self ..)
    · exact .inr (List.mem_cons_of_mem _ hmem)

/-- The definitions in effect are among what stands below files. -/
theorem mem_of_resolve (h : resolve t policy = .ok templates)
    (hn : templates.get? name = some n) : n ∈ t.files.flatMap t.children := by
  obtain ⟨e, he, rfl⟩ := Option.map_eq_some_iff.mp hn
  rcases mem_of_foldlM h (List.mem_of_find?_eq_some he) with hmem | hmem
  · cases hmem
  · exact hmem

end TemplateSet

namespace Tree

variable {t'' : Tree}

/-- Trees with the same files and the same templates below them. -/
structure SameTemplates (t t' : Tree) : Prop where
  files : t'.files = t.files
  children : ∀ f ∈ t.files, t'.children f = t.children f
  kind_file : ∀ f ∈ t.files, t'.kind f = t.kind f
  kind : ∀ n ∈ t.files.flatMap t.children, t'.kind n = t.kind n

namespace SameTemplates

theorem flatMap_eq (h : SameTemplates t t') :
    t'.files.flatMap t'.children = t.files.flatMap t.children := by
  rw [h.files]
  exact List.flatMap_congr h.children

theorem refl (t : Tree) : SameTemplates t t :=
  ⟨rfl, fun _ _ => rfl, fun _ _ => rfl, fun _ _ => rfl⟩

theorem symm (h : SameTemplates t t') : SameTemplates t' t where
  files := h.files.symm
  children f hf := (h.children f (h.files ▸ hf)).symm
  kind_file f hf := (h.kind_file f (h.files ▸ hf)).symm
  kind n hn := (h.kind n (h.flatMap_eq ▸ hn)).symm

theorem trans (h : SameTemplates t t') (h' : SameTemplates t' t'') : SameTemplates t t'' where
  files := h'.files.trans h.files
  children f hf := (h'.children f (h.files ▸ hf)).trans (h.children f hf)
  kind_file f hf := (h'.kind_file f (h.files ▸ hf)).trans (h.kind_file f hf)
  kind n hn := (h'.kind n (h.flatMap_eq ▸ hn)).trans (h.kind n hn)

theorem resolve_eq (h : SameTemplates t t') (policy : OverridePolicy) :
    TemplateSet.resolve t' policy = TemplateSet.resolve t policy := by
  unfold TemplateSet.resolve
  rw [h.flatMap_eq]
  exact TemplateSet.foldlM_insertNode_congr h.kind _

end SameTemplates

/-- Trees of one shape have the same templates if files and templates keep their kinds. -/
theorem Formed.sameTemplates (h : t.Formed) (hs : SameShape t t')
    (hfile : ∀ f, t.Reaches root f → t.level f = .file → t'.kind f = t.kind f)
    (htemplate : ∀ n ∈ t.files.flatMap t.children, t.Reaches root n → t.level n = .template →
      t'.kind n = t.kind n) : SameTemplates t t' where
  files := hs.children root
  children f _ := hs.children f
  kind_file f hf := by
    obtain ⟨hreach, path, ns, hk⟩ := h.file_of_mem_files hf
    exact hfile f hreach (by rw [level, hk]; rfl)
  kind n hn := by
    obtain ⟨f, hf, hnf⟩ := List.mem_flatMap.mp hn
    have hreach := (h.file_of_mem_files hf).1
    exact htemplate n hn (hreach.child ((h.consistent.mem_children f n).mp hnf))
      (h.level_of_mem_file hf hnf)

end Tree

end TemplateLang
