import TemplateLang.Compile
import TemplateLang.Proofs.File.Place
import TemplateLang.Proofs.Java.Names
import TemplateLang.Proofs.Tree.Views

/-! Names of generated files. Where the path of a source names a file, the name of its JavaScript is
made of names only; else it holds the path itself, with its root and its dots. The name of a
Java class has a directory for each segment of its package, also for an empty one, so that it may
begin with a slash, but it never leads up. -/

namespace TemplateLang

variable {s path ns : String} {package : Option String} {registry : Registry}

/-! ### JavaScript -/

namespace JavaScript

open PathComponent

/-- The path of a source names a file, or begins and goes on without leading out of a directory. -/
def KeepsInside (path : String) : Prop :=
  (Path.fileName? path).isSome ∨
    (Path.isAbsolute path = false ∨ Path.directoryNames path ≠ []) ∧
      ".." ∉ (Text.split '/' path).dropLast

theorem split_fileName_of_some {f : String} (h : Path.fileName? path = some f) :
    Text.split '/' (fileName path) = Path.directoryNames path ++ [Path.stem f ++ ".js"] := by
  have hslash : '/' ∉ (Path.stem f ++ ".js").toList := by
    rw [String.toList_append, List.mem_append, not_or]
    exact ⟨fun hmem => (Path.isName_of_fileName? h).2 (Path.mem_stem hmem), by decide⟩
  rw [fileName, h, Path.split_join_names fun s hs => (Path.isName_of_mem_directoryNames hs).2]
  exact congrArg _ (Text.split_of_not_mem hslash)

theorem split_fileName_of_none (h : Path.fileName? path = none) :
    ∃ before last, Text.split '/' path = before ++ [last] ∧
      Text.split '/' (fileName path) = Path.directoryNames path ++ (before ++ [last ++ ".js"]) := by
  obtain ⟨before, last, hpath, hsplit⟩ : ∃ before last,
      Text.split '/' path = before ++ [last] ∧
        Text.split '/' (path ++ ".js") = before ++ [last ++ ".js"] :=
    Text.exists_split_append (by decide) path
  refine ⟨before, last, hpath, ?_⟩
  rw [fileName, h, Path.split_join_names fun s hs => (Path.isName_of_mem_directoryNames hs).2,
    ← hsplit]
  rfl

/-- The name of the JavaScript of a file is written plainly. -/
theorem isPlain_fileName (h : (Path.fileName? path).isSome) : Path.IsPlain (fileName path) := by
  obtain ⟨f, hf⟩ := Option.isSome_iff_exists.mp h
  intro s hs
  rw [split_fileName_of_some hf] at hs
  rcases List.mem_append.mp hs with hs | hs
  · exact (Path.isName_of_mem_directoryNames hs).1
  · rw [List.mem_singleton.mp hs]
    exact isName_append _ (by decide)

theorem names_fileName_ne_nil (path : String) : Path.names (fileName path) ≠ [] := by
  cases h : Path.fileName? path with
  | some f =>
    refine Path.names_ne_nil (s := Path.stem f ++ ".js") ?_ (isName_append _ (by decide))
    rw [split_fileName_of_some h]
    simp
  | none =>
    obtain ⟨before, last, -, hsplit⟩ := split_fileName_of_none h
    refine Path.names_ne_nil (s := last ++ ".js") ?_ (isName_append _ (by decide))
    rw [hsplit]
    simp

/-- What is absolute is the path of the source, when no directory is put before it. -/
theorem isAbsolute_fileName_of_none (h : Path.fileName? path = none) :
    Path.isAbsolute (fileName path) = false ↔
      Path.isAbsolute path = false ∨ Path.directoryNames path ≠ [] := by
  cases hnames : Path.directoryNames path with
  | nil =>
    have hname : fileName path = path ++ ".js" := by
      rw [fileName, h, hnames]
      exact String.intercalate_singleton
    rw [hname, Path.isAbsolute_append]
    split_ifs with hempty
    · subst hempty
      decide
    · simp
  | cons first more =>
    have hfirst : first ∈ Path.directoryNames path := hnames ▸ List.mem_cons_self ..
    obtain ⟨before, last, -, hsplit⟩ := split_fileName_of_none h
    have hhead : (Text.split '/' (fileName path)).head? = some first := by
      rw [hsplit, hnames]
      rfl
    simp [Path.isAbsolute_eq_false_of_head? hhead (Path.isName_of_mem_directoryNames hfirst).1.1]

theorem isInside_fileName_iff (path : String) :
    Path.IsInside (fileName path) ↔ KeepsInside path := by
  cases h : Path.fileName? path with
  | some f =>
    have hsome : (Path.fileName? path).isSome := by rw [h]; rfl
    exact iff_of_true (isPlain_fileName hsome).isInside (.inl hsome)
  | none =>
    obtain ⟨before, last, hpath, hsplit⟩ := split_fileName_of_none h
    have hdots : ".." ∈ Text.split '/' (fileName path) ↔
        ".." ∈ (Text.split '/' path).dropLast := by
      rw [hsplit, hpath, List.dropLast_concat, List.mem_append, List.mem_append,
        List.mem_singleton, or_iff_right, or_iff_left]
      · exact fun hlast => (isName_append last (by decide)).2.2 hlast.symm
      · exact fun hmem => (Path.isName_of_mem_directoryNames hmem).1.2.2 rfl
    rw [Path.IsInside, Path.parent_mem_components, isAbsolute_fileName_of_none h, hdots,
      KeepsInside, h]
    simp

end JavaScript

/-! ### Java -/

namespace Java

open PathComponent

/-- The package begins with a segment that is not empty, or there is none and the class does not
begin with a slash. -/
def KeepsInside (package : Option String) (ns : String) : Prop :=
  match packageOf package ns with
  | some p => p ≠ "" ∧ p.toList.head? ≠ some '.' ∧ p.toList.head? ≠ some '/'
  | none => (ns.toList.dropWhile (· = '_')).head? ≠ some '/'

/-- A package as a path. -/
def packagePath (p : String) : String := String.map (fun c => if c = '.' then '/' else c) p

theorem dot_not_mem_packagePath (p : String) : '.' ∉ (packagePath p).toList := by
  rw [packagePath, String.toList_map, List.mem_map]
  rintro ⟨c, -, hc⟩
  split_ifs at hc with hdot
  · cases hc
  · exact hdot hc

theorem fileName_of_some {p : String} (h : packageOf package ns = some p) :
    fileName package ns = packagePath p ++ '/'.toString ++ (className ns ++ ".java") := by
  rw [fileName, h]
  exact String.append_assoc

theorem fileName_of_none (h : packageOf package ns = none) :
    fileName package ns = className ns ++ ".java" := by
  rw [fileName, h]

/-- The directories of a generated file have no dots in their names. -/
theorem exists_split_fileName (package : Option String) (ns : String) :
    ∃ directories last, Text.split '/' (fileName package ns) = directories ++ [last ++ ".java"] ∧
      ∀ s ∈ directories, '.' ∉ s.toList := by
  obtain ⟨before, last, hclass, hsplit⟩ : ∃ before last,
      Text.split '/' (className ns) = before ++ [last] ∧
        Text.split '/' (className ns ++ ".java") = before ++ [last ++ ".java"] :=
    Text.exists_split_append (by decide) (className ns)
  have hbefore : ∀ s ∈ before, '.' ∉ s.toList := fun s hs hdot =>
    dot_not_mem_className ns (Text.mem_of_mem_split (hclass ▸ List.mem_append_left _ hs) hdot)
  cases h : packageOf package ns with
  | none => exact ⟨before, last, by rw [fileName_of_none h, hsplit], hbefore⟩
  | some p =>
    refine ⟨Text.split '/' (packagePath p) ++ before, last, ?_, fun s hs => ?_⟩
    · rw [fileName_of_some h, Text.split_append_separator, hsplit, List.append_assoc]
    · rcases List.mem_append.mp hs with hs | hs
      · exact fun hdot => dot_not_mem_packagePath p (Text.mem_of_mem_split hs hdot)
      · exact hbefore s hs

theorem isName_of_mem_split_fileName (h : s ∈ Text.split '/' (fileName package ns))
    (hs : s ≠ "") : IsName s := by
  obtain ⟨directories, last, hsplit, hdots⟩ := exists_split_fileName package ns
  rw [hsplit] at h
  rcases List.mem_append.mp h with h | h
  · exact PathComponent.isName_of_not_mem (hdots s h) hs
  · rw [List.mem_singleton.mp h]
    exact isName_append last (by decide)

/-- The name of a class is written plainly when no directory in it is without a name. -/
theorem isPlain_fileName (h : "" ∉ Text.split '/' (fileName package ns)) :
    Path.IsPlain (fileName package ns) := fun _ hs =>
  isName_of_mem_split_fileName hs fun hempty => h (hempty ▸ hs)

theorem names_fileName_ne_nil (package : Option String) (ns : String) :
    Path.names (fileName package ns) ≠ [] := by
  obtain ⟨directories, last, hsplit, -⟩ := exists_split_fileName package ns
  refine Path.names_ne_nil (s := last ++ ".java") ?_ (isName_append last (by decide))
  rw [hsplit]
  simp

theorem isAbsolute_packagePath (p : String) : Path.isAbsolute (packagePath p) = false ↔
    p.toList.head? ≠ some '.' ∧ p.toList.head? ≠ some '/' := by
  rw [Path.isAbsolute, packagePath, String.toList_map, List.head?_map]
  cases p.toList.head? with
  | none => simp
  | some c =>
    by_cases hdot : c = '.'
    · simp [hdot]
    · simp [hdot]

/-- A class begins as its namespace does behind underscores. -/
theorem head?_flatMap_capitalized (cs : List Char) {rest : List Char}
    (hrest : rest.head? ≠ some '/') :
    ((Text.splitChars '_' cs).flatMap capitalized ++ rest).head? = some '/' ↔
      (cs.dropWhile (· = '_')).head? = some '/' := by
  induction cs with
  | nil => simpa [Text.splitChars_nil, capitalized] using hrest
  | cons c cs ih =>
    by_cases hc : c = '_'
    · rw [List.dropWhile_cons_of_pos (by simpa using hc), ← ih, hc, Text.splitChars_cons_self]
      rfl
    · obtain ⟨first, more, hsplit⟩ :=
        List.exists_cons_of_ne_nil (Text.splitChars_ne_nil '_' cs)
      rw [List.dropWhile_cons_of_neg (by simpa using hc), Text.splitChars_cons_of_ne hc hsplit]
      simp only [List.flatMap_cons, capitalized, List.append_assoc]
      rw [List.head?_append_of_ne_nil _ (Text.upperCase_ne_nil c), Text.head?_upperCase_eq_slash,
        List.head?_cons, Option.some_inj]

theorem isAbsolute_className (h : Text.beforeLast? '.' ns = none) :
    Path.isAbsolute (className ns) = false ↔ (ns.toList.dropWhile (· = '_')).head? ≠ some '/' := by
  have hlast : Text.lastSegment '.' ns = ns := by
    rcases Text.exists_last '.' ns with hdot | ⟨before, last, rfl, hlast⟩
    · exact Text.lastSegment_eq_self hdot
    · rw [(Text.last_append hlast).1] at h
      cases h
  rw [Path.isAbsolute, className, hlast, String.toList_append, String.toList_ofList,
    decide_eq_false_iff_not, head?_flatMap_capitalized _ (by decide)]

theorem isInside_fileName_iff (package : Option String) (ns : String) :
    Path.IsInside (fileName package ns) ↔ KeepsInside package ns := by
  have hup : ".." ∉ Text.split '/' (fileName package ns) := fun hmem =>
    (isName_of_mem_split_fileName hmem (by decide)).2.2 rfl
  rw [Path.IsInside, Path.parent_mem_components, and_iff_left hup, KeepsInside]
  cases h : packageOf package ns with
  | none =>
    have hnone : Text.beforeLast? '.' ns = none := by
      cases package with
      | none => exact h
      | some p => cases h
    have hne : className ns ≠ "" := by simp [className]
    rw [fileName_of_none h, Path.isAbsolute_append, if_neg hne, isAbsolute_className hnone]
  | some p =>
    rw [fileName_of_some h, Path.isAbsolute_append, if_neg (by simp), Path.isAbsolute_append]
    have hempty : packagePath p = "" ↔ p = "" := by
      rw [← String.toList_eq_nil_iff, packagePath, String.toList_map, List.map_eq_nil_iff,
        String.toList_eq_nil_iff]
    by_cases hp : p = ""
    · rw [if_pos (hempty.mpr hp)]
      exact iff_of_false (by decide) fun h => h.1 hp
    · rw [if_neg (mt hempty.mp hp), isAbsolute_packagePath]
      exact (and_iff_right hp).symm

end Java

/-! ### Generated units -/

theorem Dialect.of_emitFile {d : Dialect} {inEffect : View → Bool} {v : View} {unit : OutputUnit}
    (h : d.emitFile registry inEffect v = .ok unit) : ∃ ns,
      v.kind = .file unit.sourcePath ns ∧ unit.fileName = d.fileName unit.sourcePath ns := by
  rw [emitFile] at h
  split at h
  · next path ns hk =>
    obtain ⟨w, -, hunit⟩ := bind_eq_ok.mp h
    obtain rfl := Except.ok.inj hunit
    exact ⟨ns, hk, rfl⟩
  · cases h

namespace Generator

variable {g : Generator} {t t₁ : Tree} {bundle : Option Bundle} {scope scope₁ : Scope}
  {units : List OutputUnit}

theorem emit_of_generateInFrame (h : g.generateInFrame t scope = (.ok units, t₁)) :
    ∃ templates, t₁.emit g.dialect g.registry templates = .ok units := by
  unfold generateInFrame at h
  rcases hfold : t.optimizeBidi scope with ⟨e | count, t₂⟩
  · simp [hfold] at h
  · cases hresolve : TemplateSet.resolve t₂ g.policy with
    | error e => simp [hfold, hresolve] at h
    | ok templates =>
      simp only [hfold, hresolve] at h
      obtain ⟨hemit, rfl⟩ := Prod.mk.inj h
      exact ⟨templates, hemit⟩

theorem emit_of_generateWithFrame
    (h : g.generateWithFrame t bundle scope = ⟨.ok units, t₁, scope₁⟩) :
    ∃ templates, t₁.emit g.dialect g.registry templates = .ok units := by
  unfold generateWithFrame at h
  rcases henter : scope.enter with e | ⟨guard, entered⟩
  · simp [henter] at h
  · rcases hseed : entered.seedShared bundle g.bidiDir with ⟨e | u, seeded⟩
    · simp [henter, hseed] at h
    · simp only [henter, hseed] at h
      obtain ⟨hresult, htree, -⟩ := Generation.mk.inj h
      exact emit_of_generateInFrame (Prod.ext hresult htree)

/-- What a generation gives is emitted from the tree that it leaves. -/
theorem emit_of_generateInScope
    (h : g.generateInScope t bundle scope = ⟨.ok units, t₁, scope₁⟩) :
    ∃ templates, t₁.emit g.dialect g.registry templates = .ok units := by
  unfold generateInScope at h
  cases bundle with
  | none => exact emit_of_generateWithFrame h
  | some b =>
    rcases hinsert : t.insertMessages (some b) with ⟨e | u, t₂⟩
    · simp [hinsert] at h
    · simp only [hinsert] at h
      exact emit_of_generateWithFrame h

/-- Every generated unit is of a file of the tree. -/
theorem file_of_mem_units (h : g.generateInScope t bundle scope = ⟨.ok units, t₁, scope₁⟩)
    {unit : OutputUnit} (hu : unit ∈ units) : ∃ f ∈ t₁.files, ∃ ns,
      t₁.kind f = .file unit.sourcePath ns ∧
        unit.fileName = g.dialect.fileName unit.sourcePath ns := by
  obtain ⟨templates, hemit⟩ := emit_of_generateInScope h
  obtain ⟨f, hf, hfile⟩ := exists_of_mem_mapM hemit hu
  obtain ⟨ns, hk, hname⟩ := Dialect.of_emitFile hfile
  exact ⟨f, hf, ns, (Tree.kind_view t₁ f).symm.trans hk, hname⟩

end Generator

namespace CompileOptions

/-- What keeps the generated file of a path and namespace inside the output directory. -/
def KeepsInside (o : CompileOptions) (path ns : String) : Prop :=
  match o.target with
  | .js => JavaScript.KeepsInside path
  | .java => Java.KeepsInside o.package ns

theorem isInside_fileName_iff (o : CompileOptions) (path ns : String) :
    Path.IsInside (o.dialect.fileName path ns) ↔ o.KeepsInside path ns := by
  rw [dialect, KeepsInside]
  cases o.target with
  | js => exact JavaScript.isInside_fileName_iff path
  | java => exact Java.isInside_fileName_iff o.package ns

theorem names_fileName_ne_nil (o : CompileOptions) (path ns : String) :
    Path.names (o.dialect.fileName path ns) ≠ [] := by
  rw [dialect]
  cases o.target with
  | js => exact JavaScript.names_fileName_ne_nil path
  | java => exact Java.names_fileName_ne_nil o.package ns

/-- The file name of a generated unit is relative and does not lead up exactly when the path and
the namespace of its file keep it inside, and then the unit has its place below every directory
that it is written to. -/
theorem units_inside_iff {o : CompileOptions} {t t₁ : Tree} {bundle : Option Bundle}
    {scope scope₁ : Scope} {units : List OutputUnit}
    (hg : (o.generator registry).generateInScope t bundle scope = ⟨.ok units, t₁, scope₁⟩)
    {unit : OutputUnit} (hu : unit ∈ units) :
    ∃ f ∈ t₁.files, ∃ ns, t₁.kind f = .file unit.sourcePath ns ∧
      unit.fileName = o.dialect.fileName unit.sourcePath ns ∧
      (Path.IsInside unit.fileName ↔ o.KeepsInside unit.sourcePath ns) ∧
      (Path.IsInside unit.fileName → ∀ directory, ∃ names, names ≠ [] ∧
        Path.place (Path.join directory unit.fileName) = (Path.place directory).below names) := by
  obtain ⟨f, hf, ns, hk, hname⟩ := Generator.file_of_mem_units hg hu
  refine ⟨f, hf, ns, hk, hname, ?_, fun hinside directory => ⟨Path.names unit.fileName, ?_, ?_⟩⟩
  · rw [hname]
    exact o.isInside_fileName_iff unit.sourcePath ns
  · rw [hname]
    exact o.names_fileName_ne_nil unit.sourcePath ns
  · exact Path.place_join_of_isInside hinside

end CompileOptions

/-! ### A site -/

namespace Tree

/-- Two files, one of which has the root as its path. -/
def siteText : String := "[[[\"pages/home.tmpl\",\"app\"],[\"/\",\"top\"]]]"

def site : Tree :=
  ⟨#[⟨0, .fileSet, none, [⟨1⟩, ⟨2⟩]⟩, ⟨1, .file "pages/home.tmpl" "app", some root, []⟩,
    ⟨2, .file "/" "top", some root, []⟩], 3⟩

def siteOptions : CompileOptions := .ofInput "site.json" .js

/-- The units of the site. -/
def siteUnits : List OutputUnit :=
  ((siteOptions.generator .full).generate site none).result.toOption.getD []

theorem load_siteText : Tree.load 0 siteText = .ok site := by decide +kernel

theorem prepare_site : site.prepare .full (some .jsSource) = (.ok (), site) := by decide +kernel

theorem generate_site : ∃ t₁ scope₁,
    (siteOptions.generator .full).generateInScope site none .empty =
      ⟨.ok siteUnits, t₁, scope₁⟩ := by
  have hok : ((siteOptions.generator .full).generate site none).result.toOption.isSome := by
    decide +kernel
  refine ⟨((siteOptions.generator .full).generate site none).tree,
    ((siteOptions.generator .full).generate site none).scope, ?_⟩
  rw [siteUnits, ← eq_ok_of_isSome hok []]
  rfl

theorem fileName_siteUnits : siteUnits.map OutputUnit.fileName = ["pages/home.js", "/.js"] := by
  decide +kernel

/-- The page of the site stays below the directory. -/
theorem units_inside_iff_site : ∃ unit ∈ siteUnits, ∃ names, names ≠ [] ∧
    Path.place (Path.join "out" unit.fileName) = (Path.place "out").below names := by
  obtain ⟨t₁, scope₁, hg⟩ := generate_site
  have hmem : "pages/home.js" ∈ siteUnits.map OutputUnit.fileName := by
    rw [fileName_siteUnits]
    decide
  obtain ⟨unit, hu, hname⟩ := List.mem_map.mp hmem
  obtain ⟨-, -, -, -, -, -, hbelow⟩ := CompileOptions.units_inside_iff hg hu
  exact ⟨unit, hu, hbelow (by rw [hname]; decide) "out"⟩

/-- Not all units stay inside the directory that they are written to. -/
theorem not_all_units_inside :
    ¬ ∀ (fresh : ℕ) (text : String) (t t' t₁ : Tree) (registry : Registry) (o : CompileOptions)
        (bundle : Option Bundle) (scope scope₁ : Scope) (units : List OutputUnit),
      Tree.load fresh text = .ok t → t.prepare registry (some o.target.backend) = (.ok (), t') →
      (o.generator registry).generateInScope t' bundle scope = ⟨.ok units, t₁, scope₁⟩ →
      ∀ unit ∈ units, Path.IsInside unit.fileName := by
  intro h
  obtain ⟨t₁, scope₁, hg⟩ := generate_site
  have hmem : "/.js" ∈ siteUnits.map OutputUnit.fileName := by
    rw [fileName_siteUnits]
    decide
  obtain ⟨unit, hu, hname⟩ := List.mem_map.mp hmem
  have hinside := h 0 siteText site site t₁ .full siteOptions none .empty scope₁ siteUnits
    load_siteText prepare_site hg unit hu
  rw [hname] at hinside
  exact absurd hinside (by decide)

end Tree

end TemplateLang
