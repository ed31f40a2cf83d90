import TemplateLang.Name.Checker
import TemplateLang.Proofs.Name.Overrides
import TemplateLang.Proofs.Tree.Queries
import TemplateLang.Proofs.Tree.WellShaped

/-! Which file sets pass the rule on repeated names, and what the others are refused for. The rule
goes through the templates in order of the source. What it remembers is the first template of
each name among those before, and that is the first of all templates as soon as there is one,
so that what is wrong with a template depends on the tree alone. -/

namespace TemplateLang

theorem NodeKind.level_ne_of_holdsTemplates {k : NodeKind} (h : k.holdsTemplates) :
    k.level ≠ .template := by
  cases k with
  | template => cases h
  | _ => simp [level]

namespace Tree

variable {t : Tree} {m n first : NodeRef} {name path : String} {e : CompileError}
  {before after rest : List NodeRef} {seen : FirstTemplates}

/-- The templates that the root reaches, in order of the source. -/
def templates (t : Tree) : List NodeRef :=
  (t.descendants root).filter fun n => t.level n = .template

/-- Whether a node is a template with this name. -/
def isNamed (t : Tree) (name : String) (n : NodeRef) : Bool :=
  match t.kind n with
  | .template other _ _ => other = name
  | _ => false

def firstNamed? (t : Tree) (name : String) : Option NodeRef := t.templates.find? (t.isNamed name)

def HasFullName (t : Tree) (n : NodeRef) : Prop :=
  ∀ name isOverride autoescape, t.kind n = .template name isOverride autoescape →
    isPartialName name = false

/-- The first template with its name is permitted, and so is an override. -/
def Permitted (t : Tree) (n : NodeRef) : Prop :=
  ∀ name isOverride autoescape, t.kind n = .template name isOverride autoescape →
    t.firstNamed? name = some n ∨ isOverride

/-- `n` has the name of another template, the first with it, and is no override. -/
structure Repeats (t : Tree) (name : String) (first n : NodeRef) : Prop where
  kind : ∃ autoescape, t.kind n = .template name false autoescape
  full : isPartialName name = false
  found : t.firstNamed? name = some first
  ne : first ≠ n

/-- The file of this path owns `n`. -/
def InFile (t : Tree) (n : NodeRef) (path : String) : Prop :=
  ∃ f ns, t.parent n = some f ∧ t.kind f = .file path ns

/-- The error about a template that repeats a name quotes both paths, or the one of both. -/
inductive RepeatError (t : Tree) (n : NodeRef) : CompileError → Prop
  | sameFile {name path : String} {first : NodeRef} (h : t.Repeats name first n)
      (hfirst : t.InFile first path) (hn : t.InFile n path) :
      RepeatError t n (.duplicateTemplateSameFile name path)
  | otherFile {name firstPath path : String} {first : NodeRef} (h : t.Repeats name first n)
      (hfirst : t.InFile first firstPath) (hn : t.InFile n path) (hne : firstPath ≠ path) :
      RepeatError t n (.duplicateTemplate name firstPath path)

/-- What is wrong with a node among all templates. -/
def fault? (t : Tree) (n : NodeRef) : Option CompileError :=
  match t.kind n with
  | .template name isOverride _ =>
    if isPartialName name then some (.partialTemplateName name)
    else if isOverride then none
    else ((t.firstNamed? name).filter (· ≠ n)).map fun first => t.duplicateError name first n
  | _ => none

/-! ### Templates of well-shaped trees -/

theorem isNamed_iff : t.isNamed name n ↔
    ∃ isOverride autoescape, t.kind n = .template name isOverride autoescape := by
  cases hk : t.kind n <;> simp [isNamed, hk]

theorem kind_of_mem_templates (hn : n ∈ t.templates) :
    ∃ name isOverride autoescape, t.kind n = .template name isOverride autoescape := by
  have hlevel : t.level n = .template := by simpa using List.of_mem_filter hn
  exact NodeKind.level_eq_template.mp hlevel

namespace Consistent

theorem mem_templates (h : t.Consistent) :
    n ∈ t.templates ↔ t.Reaches root n ∧ t.level n = .template := by
  simp [templates, h.mem_descendants]

theorem nodup_templates (h : t.Consistent) : t.templates.Nodup :=
  (h.nodup_descendants root).filter _

end Consistent

namespace WellShaped

variable (hw : t.WellShaped) (h : t.Consistent)

include hw h

theorem holds (hm : t.Reaches root m) (hp : t.parent n = some m) :
    (t.level m).holds (t.level n) :=
  (hw.owns m hm).holds (List.mem_map_of_mem ((h.mem_children m n).mpr hp))

/-- Nothing below a template is a template. -/
theorem filter_descendants (hn : t.Reaches root n) (hlevel : t.level n = .template) :
    (t.descendants n).filter (fun x => t.level x = .template) = [n] := by
  rw [h.descendants_eq, List.filter_cons_of_pos (by simpa using hlevel), List.cons.injEq]
  refine ⟨rfl, List.filter_eq_nil_iff.mpr fun x hx hxlevel => ?_⟩
  obtain ⟨c, hc, hcx⟩ := List.mem_flatMap.mp hx
  have hcn := (h.mem_children n c).mp hc
  have hreach := h.mem_descendants.mp hcx
  have hdepth := depth_le_of_holds
    (fun y q hq hp => hw.holds h (hn.trans hq) hp) ((Reaches.of_parent hcn).trans hreach)
  rw [of_decide_eq_true hxlevel, hlevel] at hdepth
  obtain rfl | hdepth := hdepth
  · exact h.not_reaches_parent hcn hreach
  · simp [Level.depth] at hdepth

theorem level_of_mem_files {f : NodeRef} (hf : f ∈ t.files) : t.level f = .file := by
  have hholds := hw.holds h .refl ((h.mem_children root f).mp hf)
  rw [level, hw.kind_root] at hholds
  simpa [NodeKind.level, Level.holds] using hholds

theorem level_of_mem_file {f : NodeRef} (hf : f ∈ t.files) (hn : n ∈ t.children f) :
    t.level n = .template := by
  have hreach : t.Reaches root f := .of_parent ((h.mem_children root f).mp hf)
  have hholds := hw.holds h hreach ((h.mem_children f n).mp hn)
  rw [hw.level_of_mem_files h hf] at hholds
  simpa [Level.holds] using hholds

/-- The templates stand below the files. -/
theorem templates_eq : t.templates = t.files.flatMap t.children := by
  have hroot : t.level root ≠ .template := by
    rw [level, hw.kind_root]
    decide
  have hfile : ∀ f ∈ t.files,
      (t.descendants f).filter (fun x => t.level x = .template) = t.children f := by
    intro f hf
    have hreach : t.Reaches root f := .of_parent ((h.mem_children root f).mp hf)
    have hlevel := hw.level_of_mem_files h hf
    have hbelow : ∀ n ∈ t.children f,
        (t.descendants n).filter (fun x => t.level x = .template) = [n] := fun n hn =>
      hw.filter_descendants h (hreach.child ((h.mem_children f n).mp hn))
        (hw.level_of_mem_file h hf hn)
    rw [h.descendants_eq, List.filter_cons_of_neg (by simp [hlevel]), List.filter_flatMap,
      List.flatMap_congr hbelow]
    simp
  rw [templates, h.descendants_eq, List.filter_cons_of_neg (by simpa using hroot),
    List.filter_flatMap]
  exact List.flatMap_congr hfile

theorem exists_inFile (hn : n ∈ t.templates) : ∃ path, t.InFile n path := by
  obtain ⟨hreach, hlevel⟩ := h.mem_templates.mp hn
  obtain rfl | ⟨f, hf, hroot⟩ := hreach.eq_or_parent
  · rw [level, hw.kind_root] at hlevel
    cases hlevel
  · have hholds := hw.holds h hroot hf
    rw [hlevel] at hholds
    obtain ⟨path, ns, hk⟩ := NodeKind.level_eq_file.mp (Level.eq_file_of_holds hholds)
    exact ⟨path, f, ns, hf, hk⟩

end WellShaped

theorem Consistent.filePathOf_eq (h : t.Consistent) (hn : t.InFile n path) :
    t.filePathOf n = some path := by
  obtain ⟨f, ns, hf, hk⟩ := hn
  have hpath : ∃ above, t.path f = f :: above := by
    cases hp : t.parent f with
    | none => exact ⟨[], path_of_orphan hp⟩
    | some p => exact ⟨t.path p, h.path_of_parent hp⟩
  obtain ⟨above, habove⟩ := hpath
  simp [filePathOf, h.path_of_parent hf, habove, hk]

/-! ### The walk over the templates -/

/-- What the rule remembers is the first template of each name among those it has met. -/
def Remembers (t : Tree) (before : List NodeRef) (seen : FirstTemplates) : Prop :=
  ∀ name, (seen.find? (·.1 = name)).map (·.2) = before.find? (t.isNamed name)

theorem Remembers.find?_eq_none (h : t.Remembers before seen)
    (hfind : before.find? (t.isNamed name) = none) : seen.find? (·.1 = name) = none :=
  Option.map_eq_none_iff.mp ((h name).trans hfind)

theorem Remembers.find?_eq_some (h : t.Remembers before seen)
    (hfind : before.find? (t.isNamed name) = some first) :
    ∃ other, seen.find? (·.1 = name) = some (other, first) := by
  obtain ⟨⟨other, found⟩, hseen, rfl⟩ := Option.map_eq_some_iff.mp ((h name).trans hfind)
  exact ⟨other, hseen⟩

/-- The first template of a name is remembered. -/
theorem Remembers.append (h : t.Remembers before seen) {isOverride autoescape : Bool}
    (hk : t.kind n = .template name isOverride autoescape)
    (hfind : before.find? (t.isNamed name) = none) :
    t.Remembers (before ++ [n]) (seen ++ [(name, n)]) := by
  intro other
  by_cases ho : name = other
  · subst ho
    simp [h.find?_eq_none hfind, hfind, isNamed, hk]
  · have hnot : t.isNamed other n = false := by simp [isNamed, hk, ho]
    simp [h other, hnot, ho]

/-- A later one is not. -/
theorem Remembers.of_find?_eq_some (h : t.Remembers before seen) {isOverride autoescape : Bool}
    (hk : t.kind n = .template name isOverride autoescape)
    (hfind : before.find? (t.isNamed name) = some first) : t.Remembers (before ++ [n]) seen := by
  intro other
  by_cases ho : name = other
  · subst ho
    simp [h name, hfind]
  · have hnot : t.isNamed other n = false := by simp [isNamed, hk, ho]
    simp [h other, hnot]

/-- Among all templates, the first with the name of `n` is one before `n` or else `n`. -/
theorem firstNamed?_of_split (hsplit : t.templates = before ++ n :: after)
    {isOverride autoescape : Bool} (hk : t.kind n = .template name isOverride autoescape) :
    t.firstNamed? name = (before.find? (t.isNamed name)).or (some n) := by
  have hn : t.isNamed name n := isNamed_iff.mpr ⟨isOverride, autoescape, hk⟩
  rw [firstNamed?, hsplit, List.find?_append, List.find?_cons_of_pos hn]

/-- One step: a template passes if nothing is wrong with it, and is remembered as it should. -/
theorem checkOverride_of_remembers (hnodup : t.templates.Nodup)
    (hsplit : t.templates = before ++ n :: after) (h : t.Remembers before seen) :
    (∃ seen', t.fault? n = none ∧ t.checkOverride seen (t.view n) = .ok seen' ∧
      t.Remembers (before ++ [n]) seen') ∨
    ∃ e, t.fault? n = some e ∧ t.checkOverride seen (t.view n) = .error e := by
  have hmem : n ∈ t.templates := by simp [hsplit]
  obtain ⟨name, isOverride, autoescape, hk⟩ := kind_of_mem_templates hmem
  have hfirst := firstNamed?_of_split hsplit hk
  simp only [fault?, checkOverride, kind_view, ref_view, hk]
  by_cases hpartial : isPartialName name
  · simp [hpartial]
  · cases hfind : before.find? (t.isNamed name) with
    | none =>
      have hseen := h.find?_eq_none hfind
      have hremembers := h.append hk hfind
      simp [hpartial, hfirst, hfind, hseen, hremembers]
    | some first =>
      obtain ⟨other, hseen⟩ := h.find?_eq_some hfind
      have hne : first ≠ n := by
        rw [hsplit, List.nodup_append] at hnodup
        exact hnodup.2.2 first (List.mem_of_find?_eq_some hfind) n (List.mem_cons_self ..)
      have hremembers := h.of_find?_eq_some hk hfind
      cases isOverride <;> simp [hpartial, hfirst, hfind, hseen, hne, hremembers]

/-- All steps: the templates that are left pass up to the first that something is wrong with. -/
theorem outcome_foldlM_checkOverride (hnodup : t.templates.Nodup)
    (hsplit : t.templates = before ++ rest) (h : t.Remembers before seen) :
    outcome ((rest.map t.view).foldlM t.checkOverride seen) =
      (rest.findSome? t.fault?).elim (.ok ()) .error := by
  induction rest generalizing before seen with
  | nil => rfl
  | cons n rest ih =>
    rw [List.map_cons, List.foldlM_cons, List.findSome?_cons]
    obtain ⟨seen', hfault, hstep, hseen'⟩ | ⟨e, hfault, hstep⟩ :=
      checkOverride_of_remembers hnodup hsplit h
    · rw [hfault, hstep, ok_bind]
      exact ih (by simpa using hsplit) hseen'
    · rw [hfault, hstep]
      rfl

/-- What is no template is met without consequences. -/
theorem checkOverride_of_level_ne (seen : FirstTemplates) {v : View}
    (h : v.kind.level ≠ .template) : t.checkOverride seen v = .ok seen := by
  rw [checkOverride]
  split
  · next hk => simp [hk, NodeKind.level] at h
  · rfl

theorem foldlM_checkOverride_filter (ns : List NodeRef) (seen : FirstTemplates) :
    ((ns.filter fun n => t.level n = .template).map t.view).foldlM t.checkOverride seen =
      (ns.map t.view).foldlM t.checkOverride seen := by
  induction ns generalizing seen with
  | nil => rfl
  | cons n ns ih =>
    by_cases hlevel : t.level n = .template
    · rw [List.filter_cons_of_pos (by simpa using hlevel), List.map_cons, List.map_cons,
        List.foldlM_cons, List.foldlM_cons]
      exact congrArg _ (funext ih)
    · have hpass : t.checkOverride seen (t.view n) = .ok seen :=
        checkOverride_of_level_ne seen (by rwa [kind_view])
      rw [List.filter_cons_of_neg (by simpa using hlevel), List.map_cons, List.foldlM_cons, hpass,
        ok_bind]
      exact ih seen

/-- Of what is remembered at the end, nothing is needed. -/
theorem checkOverrides_eq_outcome (t : Tree) : t.checkOverrides =
    outcome (((t.view root).nodesWhere NodeKind.holdsTemplates).foldlM t.checkOverride []) := by
  rw [checkOverrides]
  cases ((t.view root).nodesWhere NodeKind.holdsTemplates).foldlM t.checkOverride [] <;> rfl

theorem WellShaped.checkOverrides_eq (hw : t.WellShaped) (h : t.Consistent) :
    t.checkOverrides = (t.templates.findSome? t.fault?).elim (.ok ()) .error := by
  have hfilter : ((root :: t.files.flatMap fun f => f :: t.children f).filter
      fun n => t.level n = .template) = t.templates := by
    have hfile : ∀ f ∈ t.files, ((f :: t.children f).filter fun n => t.level n = .template) =
        t.children f := by
      intro f hf
      rw [List.filter_cons_of_neg (by simp [hw.level_of_mem_files h hf]), List.filter_eq_self]
      exact fun n hn => by simpa using hw.level_of_mem_file h hf hn
    have hroot : t.level root ≠ .template := by
      rw [level, hw.kind_root]
      decide
    rw [List.filter_cons_of_neg (by simpa using hroot), List.filter_flatMap, hw.templates_eq h]
    exact List.flatMap_congr hfile
  have hnodes := h.nodesWhere_holdsTemplates hw.kind_root
    (fun f hf => hw.level_of_mem_files h hf) fun f hf n hn => hw.level_of_mem_file h hf hn
  rw [checkOverrides_eq_outcome, hnodes, ← foldlM_checkOverride_filter, hfilter]
  exact outcome_foldlM_checkOverride h.nodup_templates (List.nil_append _).symm fun _ => rfl

/-! ### Faults -/

theorem exists_firstNamed? (hn : n ∈ t.templates) {isOverride autoescape : Bool}
    (hk : t.kind n = .template name isOverride autoescape) :
    ∃ first, t.firstNamed? name = some first := by
  refine Option.isSome_iff_exists.mp (List.find?_isSome.mpr ⟨n, hn, ?_⟩)
  exact isNamed_iff.mpr ⟨isOverride, autoescape, hk⟩

theorem fault?_eq_none_iff (hn : n ∈ t.templates) :
    t.fault? n = none ↔ t.HasFullName n ∧ t.Permitted n := by
  obtain ⟨name, isOverride, autoescape, hk⟩ := kind_of_mem_templates hn
  obtain ⟨first, hfirst⟩ := exists_firstNamed? hn hk
  have hfull : t.HasFullName n ↔ isPartialName name = false := by simp [HasFullName, hk]
  have hpermitted : t.Permitted n ↔ first = n ∨ isOverride := by
    constructor
    · intro h
      simpa [hfirst] using h name isOverride autoescape hk
    · rintro h _ _ _ hk'
      obtain ⟨rfl, rfl, -⟩ := NodeKind.template.inj (hk.symm.trans hk')
      simpa [hfirst] using h
  rw [hfull, hpermitted]
  simp only [fault?, hk, hfirst]
  by_cases hpartial : isPartialName name
  · simp [hpartial]
  · by_cases hne : first = n
    · simp [hpartial, hne]
    · cases isOverride <;> simp [hpartial, hne]

theorem RepeatError.repeats (h : t.RepeatError n e) : ∃ name first, t.Repeats name first n := by
  cases h with
  | sameFile hr => exact ⟨_, _, hr⟩
  | otherFile hr => exact ⟨_, _, hr⟩

/-- A template that repeats a name is not permitted. -/
theorem RepeatError.not_permitted (h : t.RepeatError n e) : ¬ t.Permitted n := by
  obtain ⟨name, first, hr⟩ := h.repeats
  obtain ⟨autoescape, hk⟩ := hr.kind
  intro hpermitted
  have hfirst := hpermitted name false autoescape hk
  simp [hr.found, hr.ne] at hfirst

theorem RepeatError.hasFullName (h : t.RepeatError n e) : t.HasFullName n := by
  obtain ⟨name, first, hr⟩ := h.repeats
  obtain ⟨_, hk⟩ := hr.kind
  intro other isOverride autoescape hk'
  obtain ⟨rfl, -⟩ := NodeKind.template.inj (hk.symm.trans hk')
  exact hr.full

theorem Repeats.fault?_eq (h : t.Repeats name first n) :
    t.fault? n = some (t.duplicateError name first n) := by
  obtain ⟨autoescape, hk⟩ := h.kind
  simp [fault?, hk, h.full, h.found, h.ne]

/-- The error about a repeated name quotes the paths of the files. -/
theorem WellShaped.repeatError_iff (hw : t.WellShaped) (h : t.Consistent) (hn : n ∈ t.templates) :
    t.RepeatError n e ↔
      ∃ name first, t.Repeats name first n ∧ e = t.duplicateError name first n := by
  constructor
  · rintro (⟨hr, hfirst, hn⟩ | ⟨hr, hfirst, hn, hne⟩)
    · exact ⟨_, _, hr, by simp [duplicateError, h.filePathOf_eq hfirst, h.filePathOf_eq hn]⟩
    · exact ⟨_, _, hr, by simp [duplicateError, h.filePathOf_eq hfirst, h.filePathOf_eq hn, hne]⟩
  · rintro ⟨name, first, hr, rfl⟩
    obtain ⟨path, hpath⟩ := hw.exists_inFile h hn
    obtain ⟨firstPath, hfirst⟩ := hw.exists_inFile h (List.mem_of_find?_eq_some hr.found)
    simp only [duplicateError, h.filePathOf_eq hfirst, h.filePathOf_eq hpath, Option.getD_some]
    split_ifs with heq
    · exact .sameFile hr (heq ▸ hfirst) hpath
    · exact .otherFile hr hfirst hpath heq

theorem WellShaped.fault?_eq_some_iff (hw : t.WellShaped) (h : t.Consistent)
    (hn : n ∈ t.templates) : t.fault? n = some e ↔
      (∃ name isOverride autoescape, t.kind n = .template name isOverride autoescape ∧
        isPartialName name ∧ e = .partialTemplateName name) ∨ t.RepeatError n e := by
  rw [hw.repeatError_iff h hn]
  constructor
  · intro hfault
    obtain ⟨name, isOverride, autoescape, hk⟩ := kind_of_mem_templates hn
    by_cases hpartial : isPartialName name
    · left
      simp only [fault?, hk, hpartial, if_true, Option.some.injEq] at hfault
      exact ⟨name, isOverride, autoescape, hk, hpartial, hfault.symm⟩
    · right
      obtain ⟨first, hfirst⟩ := exists_firstNamed? hn hk
      cases isOverride with
      | true => simp [fault?, hk, hpartial] at hfault
      | false =>
        by_cases hne : first = n
        · simp [fault?, hk, hpartial, hfirst, hne] at hfault
        · have hr : t.Repeats name first n :=
            ⟨⟨autoescape, hk⟩, by simpa using hpartial, hfirst, hne⟩
          rw [hr.fault?_eq] at hfault
          exact ⟨name, first, hr, (Option.some.inj hfault).symm⟩
  · rintro (⟨name, isOverride, autoescape, hk, hpartial, rfl⟩ | ⟨name, first, hr, rfl⟩)
    · simp [fault?, hk, hpartial]
    · exact hr.fault?_eq

/-! ### Verdicts -/

theorem WellShaped.checkOverrides_eq_ok_iff (hw : t.WellShaped) (h : t.Consistent) :
    t.checkOverrides = .ok () ↔ ∀ n ∈ t.templates, t.HasFullName n ∧ t.Permitted n := by
  have hnone : t.checkOverrides = .ok () ↔ t.templates.findSome? t.fault? = none := by
    rw [hw.checkOverrides_eq h]
    cases t.templates.findSome? t.fault? <;> simp
  rw [hnone, List.findSome?_eq_none_iff]
  exact forall₂_congr fun n hn => fault?_eq_none_iff hn

/-- A file set is refused for the first template that something is wrong with. -/
theorem WellShaped.checkOverrides_eq_error_iff (hw : t.WellShaped) (h : t.Consistent) :
    t.checkOverrides = .error e ↔ ∃ before n after, t.templates = before ++ n :: after ∧
      (∀ m ∈ before, t.HasFullName m ∧ t.Permitted m) ∧
      ((∃ name isOverride autoescape, t.kind n = .template name isOverride autoescape ∧
        isPartialName name ∧ e = .partialTemplateName name) ∨ t.RepeatError n e) := by
  have hsome : t.checkOverrides = .error e ↔ t.templates.findSome? t.fault? = some e := by
    rw [hw.checkOverrides_eq h]
    cases t.templates.findSome? t.fault? <;> simp
  rw [hsome, List.findSome?_eq_some_iff]
  refine exists₃_congr fun before n after => and_congr_right fun hsplit => ?_
  have hn : n ∈ t.templates := by simp [hsplit]
  have hbefore : (∀ m ∈ before, t.fault? m = none) ↔
      ∀ m ∈ before, t.HasFullName m ∧ t.Permitted m :=
    forall₂_congr fun m hm => fault?_eq_none_iff (by simp [hsplit, hm])
  rw [hbefore, hw.fault?_eq_some_iff h hn, and_comm]

end Tree

end TemplateLang
