import TemplateLang.Proofs.Name.Definitions
import TemplateLang.Proofs.Text.Segments

/-! Full names. Preparation completes a partial name of a template or a callee with the namespace of
the file around it. A namespace that is empty or begins with a dot leaves the name partial: a
template is refused then, a callee is not. -/

namespace TemplateLang

variable {t t' : Tree} {n : NodeRef} {ns name name' : String} {registry : Registry}
  {backend : Option Backend}

/-! ### Completed names -/

/-- A namespace in which partial names become full. -/
def Completes (ns : String) : Prop := ns ≠ "" ∧ isPartialName ns = false

instance (ns : String) : Decidable (Completes ns) := inferInstanceAs (Decidable (_ ∧ _))

/-- What a name becomes in a file of the namespace `ns`: a full name is kept, and a partial one gets
the namespace in front. -/
inductive Qualified (ns : String) : String → String → Prop
  | kept {name : String} (h : isPartialName name = false) : Qualified ns name name
  | completed {name : String} (h : isPartialName name) : Qualified ns name (ns ++ name)

theorem qualified_qualify (ns name : String) : Qualified ns name (qualify ns name) := by
  rw [qualify]
  split_ifs with h
  · exact .completed h
  · exact .kept (by simpa using h)

theorem isPartialName_append (ns name : String) :
    isPartialName (ns ++ name) = if ns = "" then isPartialName name else isPartialName ns := by
  rw [isPartialName, isPartialName, isPartialName, Text.head?_toList_append]
  split_ifs <;> rfl

/-- A name stays partial when it is partial and the namespace does not complete it. -/
theorem isPartialName_qualify :
    isPartialName (qualify ns name) ↔ isPartialName name ∧ ¬ Completes ns := by
  rw [qualify, Completes]
  split_ifs with h
  · rw [isPartialName_append]
    split_ifs with hns
    · simp [h, hns]
    · simp [h, hns]
  · simp [h]

namespace NodeKind

/-- The name that a template has or a call calls. -/
def name? : NodeKind → Option String
  | .template name _ _ => some name
  | .call callee _ => some callee
  | _ => none

def isFile (k : NodeKind) : Bool := k.ns?.isSome

theorem ns?_eq_some {k : NodeKind} : k.ns? = some ns ↔ ∃ path, k = .file path ns := by
  cases k <;> simp [ns?]

theorem name?_qualifyName (ns : String) (k : NodeKind) :
    (qualifyName ns k).2.name? = k.name?.map (qualify ns) := by
  cases k <;> rfl

theorem name?_markSite (s : Bool) (k : NodeKind) : (markSite s k).2.name? = k.name? := by
  cases k with
  | print expr directives escape => cases escape <;> rfl
  | _ => rfl

theorem name?_insertEscape (s : Insertions) (k : NodeKind) :
    (insertEscape registry s k).2.name? = k.name? := by
  unfold insertEscape
  split
  · simp only
    split <;> rfl
  · rfl

/-- Named nodes stand below files. -/
theorem depth_of_name? {k : NodeKind} (h : k.name? = some name) : 1 < k.level.depth := by
  cases k <;> simp_all [name?, level, Level.depth]

end NodeKind

/-! ### Prepared trees -/

namespace Tree

/-- A named node of a loaded tree is in a file. -/
theorem Loaded.exists_file (h : t.Loaded) (hn : t.Has n) (hname : (t.kind n).name? = some name) :
    ∃ f path ns, t.nearestAncestor n NodeKind.isFile = some f ∧ t.kind f = .file path ns ∧
      t.inherited NodeKind.ns? n = some ns := by
  obtain ⟨f, ns, hf, hns, hinherited⟩ :=
    h.exists_inherited NodeKind.carries_qualifyName hn (NodeKind.depth_of_name? hname)
  obtain ⟨path, hk⟩ := NodeKind.ns?_eq_some.mp hns
  exact ⟨f, path, ns, hf, hk, hinherited⟩

/-- Of the passes of preparation one changes names. -/
theorem Loaded.name?_prepare (h : t.Loaded) (hp : t.prepare registry backend = (.ok (), t'))
    (hn : t.Has n) : (t'.kind n).name? =
      (t.kind n).name?.map (qualify ((t.inherited NodeKind.ns? n).getD "")) := by
  rw [h.kind_prepare hp hn, NodeKind.name?_insertEscape, NodeKind.name?_markSite,
    NodeKind.name?_qualifyName]

/-- A call by a partial name in a file whose namespace does not complete it. -/
def Stranded (t : Tree) (n : NodeRef) : Prop :=
  ∃ callee passesData f path ns, t.kind n = .call callee passesData ∧ isPartialName callee ∧
    t.nearestAncestor n NodeKind.isFile = some f ∧ t.kind f = .file path ns ∧ ¬ Completes ns

/-- Names of the prepared tree are the old ones, qualified with the namespaces of their files. -/
theorem Loaded.exists_qualify_of_prepare (h : t.Loaded)
    (hp : t.prepare registry backend = (.ok (), t')) (hn : t.Has n)
    (hname' : (t'.kind n).name? = some name') :
    ∃ f path ns name, t.nearestAncestor n NodeKind.isFile = some f ∧ t.kind f = .file path ns ∧
      (t.kind n).name? = some name ∧ name' = qualify ns name := by
  rw [h.name?_prepare hp hn, Option.map_eq_some_iff] at hname'
  obtain ⟨name, hname, rfl⟩ := hname'
  obtain ⟨f, path, ns, hf, hk, hns⟩ := h.exists_file hn hname
  exact ⟨f, path, ns, name, hf, hk, hname, by rw [hns, Option.getD_some]⟩

/-- Templates with partial names are refused. -/
theorem Loaded.full_template_prepare (h : t.Loaded)
    (hp : t.prepare registry backend = (.ok (), t')) (hn : t.Has n) {isOverride autoescape : Bool}
    (hk : t'.kind n = .template name' isOverride autoescape) : isPartialName name' = false := by
  have h' := h.prepare hp
  have hreach := h'.reaches_root ((sameShape_prepare hp).has.mpr hn)
  refine h.named_prepare hp n (h'.mem_templates hreach ?_) name' isOverride autoescape hk
  rw [level, hk]
  rfl

/-- The names of a prepared tree are full but for those of stranded calls. -/
theorem Loaded.full_iff_not_stranded (h : t.Loaded)
    (hp : t.prepare registry backend = (.ok (), t')) (hn : t.Has n) :
    (∀ name', (t'.kind n).name? = some name' → isPartialName name' = false) ↔ ¬ t.Stranded n := by
  constructor
  · rintro hfull ⟨callee, passesData, f, path, ns, hcall, hpartial, hf, hk, hns⟩
    have hname : (t.kind n).name? = some callee := by
      rw [hcall]
      rfl
    obtain ⟨f', path', ns', hf', hk', hinherited⟩ := h.exists_file hn hname
    obtain rfl : f = f' := Option.some.inj (hf.symm.trans hf')
    obtain ⟨rfl, rfl⟩ := NodeKind.file.inj (hk.symm.trans hk')
    have hname' := h.name?_prepare hp hn
    rw [hname, hinherited] at hname'
    have hleft : isPartialName (qualify ns callee) := isPartialName_qualify.mpr ⟨hpartial, hns⟩
    rw [hfull (qualify ns callee) hname'] at hleft
    cases hleft
  · intro hstranded name' hname'
    by_contra hpartial
    simp only [Bool.not_eq_false] at hpartial
    obtain ⟨f, path, ns, name, hf, hk, hname, rfl⟩ := h.exists_qualify_of_prepare hp hn hname'
    obtain ⟨hold, hns⟩ := isPartialName_qualify.mp hpartial
    cases hkind : t.kind n with
    | call callee passesData =>
      rw [hkind] at hname
      obtain rfl : callee = name := Option.some.inj hname
      exact hstranded ⟨callee, passesData, f, path, ns, hkind, hold, hf, hk, hns⟩
    | template old isOverride autoescape =>
      -- a template with a partial name would have been refused
      have hk' := h.kind_prepare_of_not_isPrint hp hn (by rw [hkind]; rfl)
      rw [hkind] at hk'
      rw [hk'] at hname'
      rw [← Option.some.inj hname', h.full_template_prepare hp hn hk'] at hpartial
      cases hpartial
    | _ =>
      rw [hkind] at hname
      cases hname

/-- Preparation completes every name with the namespace of its file and leaves no template with a
partial name; callees are full exactly when none is stranded. -/
theorem prepare_full_iff {fresh : ℕ} {text : String} (hload : Tree.load fresh text = .ok t)
    (hprepare : t.prepare registry backend = (.ok (), t')) :
    (∀ n ∈ t'.descendants root, ∀ name', (t'.kind n).name? = some name' →
        ∃ f path ns name, t.nearestAncestor n NodeKind.isFile = some f ∧
          t.kind f = .file path ns ∧ (t.kind n).name? = some name ∧ Qualified ns name name') ∧
      (∀ n ∈ t'.descendants root, ∀ name' isOverride autoescape,
        t'.kind n = .template name' isOverride autoescape → isPartialName name' = false) ∧
      ((∀ n ∈ t'.descendants root, ∀ name', (t'.kind n).name? = some name' →
          isPartialName name' = false) ↔
        ∀ n ∈ t.descendants root, ¬ t.Stranded n) := by
  have h := loaded_of_load hload
  have hdescendants : ∀ n, n ∈ t'.descendants root ↔ n ∈ t.descendants root := by
    intro n
    rw [(h.prepare hprepare).consistent.mem_descendants, h.consistent.mem_descendants,
      (sameShape_prepare hprepare).reaches]
  have hhas : ∀ n ∈ t.descendants root, t.Has n := fun n hn =>
    (h.consistent.mem_descendants.mp hn).has h.consistent.has_root
  simp only [hdescendants]
  refine ⟨fun n hn name' hname' => ?_, fun n hn name' isOverride autoescape hk =>
    h.full_template_prepare hprepare (hhas n hn) hk, forall₂_congr fun n hn =>
    h.full_iff_not_stranded hprepare (hhas n hn)⟩
  obtain ⟨f, path, ns, name, hf, hk, hname, rfl⟩ :=
    h.exists_qualify_of_prepare hprepare (hhas n hn) hname'
  exact ⟨f, path, ns, name, hf, hk, hname, qualified_qualify ns name⟩

/-! ### Namespaces that complete names -/

/-- Trees in which the namespace of every file completes names. -/
def NamespacesComplete (t : Tree) : Prop := ∀ f ∈ t.files, ∀ ns ∈ (t.kind f).ns?, Completes ns

instance (t : Tree) : Decidable t.NamespacesComplete :=
  inferInstanceAs (Decidable (∀ f ∈ t.files, ∀ ns ∈ (t.kind f).ns?, Completes ns))

/-- What the nearest file says is what a file below the root says. -/
theorem Loaded.completes_of_inherited (h : t.Loaded) (hc : t.NamespacesComplete)
    (hn : t.inherited NodeKind.ns? n = some ns) : Completes ns := by
  obtain ⟨f, hf, hns⟩ := Option.bind_eq_some_iff.mp hn
  have hreach : t.Reaches root f := by
    refine h.reaches_root ?_
    by_contra hnot
    rw [kind, node_of_not_has hnot] at hns
    cases hns
  obtain ⟨path, hk⟩ := NodeKind.ns?_eq_some.mp hns
  exact hc f (h.mem_files hreach (by rw [level, hk]; rfl)) ns hns

theorem Loaded.not_stranded (h : t.Loaded) (hc : t.NamespacesComplete) : ¬ t.Stranded n := by
  rintro ⟨callee, passesData, f, path, ns, -, -, hf, hk, hns⟩
  have hinherited : t.inherited NodeKind.ns? n = some ns := by
    have hf' : (t.nearestAncestor n fun k => k.ns?.isSome) = some f := hf
    rw [inherited, hf', Option.bind_some, hk]
    rfl
  exact hns (h.completes_of_inherited hc hinherited)

/-- Where all namespaces complete names, preparation makes all names full. -/
theorem Loaded.full_prepare (h : t.Loaded) (hc : t.NamespacesComplete)
    (hp : t.prepare registry backend = (.ok (), t')) (hn : t.Has n)
    (hname : (t'.kind n).name? = some name) : isPartialName name = false :=
  (h.full_iff_not_stranded hp hn).mpr (h.not_stranded hc) name hname

/-- The names of the page are full, the callee among them. -/
theorem prepare_full_page :
    (∀ n ∈ preparedPage.descendants root, ∀ name, (preparedPage.kind n).name? = some name →
        isPartialName name = false) ∧
      (preparedPage.kind ⟨9⟩).name? = some "app.login" := by
  obtain ⟨-, -, hfull⟩ := prepare_full_iff load_pageText prepare_page
  have hstranded : ∀ n ∈ page.descendants root, ¬ page.Stranded n := fun n _ =>
    (loaded_of_load load_pageText).not_stranded (by decide +kernel)
  exact ⟨hfull.mpr hstranded, by decide +kernel⟩

/-! ### A call that stays partial -/

/-- A file without a namespace, with a call by a partial name. -/
def strandedText : String :=
  "[[[\"a.tmpl\",\"\",[[\"app.main\",false,true,[[\"call\",\".other\",false]]]]]]]"

def stranded : Tree :=
  ⟨#[⟨0, .fileSet, none, [⟨1⟩]⟩, ⟨1, .file "a.tmpl" "", some root, [⟨2⟩]⟩,
    ⟨2, .template "app.main" false true, some ⟨1⟩, [⟨3⟩]⟩, ⟨3, .call ".other" false, some ⟨2⟩, []⟩],
    4⟩

theorem load_strandedText : Tree.load 0 strandedText = .ok stranded := by decide +kernel

/-- Preparation succeeds and leaves the tree as it is. -/
theorem prepare_stranded : stranded.prepare .full none = (.ok (), stranded) := by decide +kernel

/-- Not all names are full after preparation: a callee is not checked. -/
theorem not_all_names_full :
    ¬ ∀ (fresh : ℕ) (text : String) (t t' : Tree) (registry : Registry)
        (backend : Option Backend),
      Tree.load fresh text = .ok t → t.prepare registry backend = (.ok (), t') →
      ∀ n ∈ t'.descendants root, ∀ name, (t'.kind n).name? = some name →
        isPartialName name = false := by
  intro h
  have hfull := h 0 strandedText stranded stranded .full none load_strandedText prepare_stranded
    ⟨3⟩ (by decide +kernel) ".other" (by decide +kernel)
  exact absurd hfull (by decide)

end Tree

end TemplateLang
