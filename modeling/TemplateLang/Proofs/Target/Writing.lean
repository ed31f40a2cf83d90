import TemplateLang.Proofs.File.Memory
import TemplateLang.Proofs.Target.OutputName
import TemplateLang.Proofs.Target.Units

/-! Writing units below a directory. Two units that have one file name are refused before anything is
written; two names for one place are not noticed. Where no two names of the units stand for one
place, every unit that is written is in a file of its own. -/

namespace TemplateLang

variable {fs fs' : FileSystem} {directory path : String} {unit first : OutputUnit}
  {units taken : List OutputUnit} {paths : List String} {e : CompileError}

namespace OutputUnit

/-- The path that a unit is written to. -/
def pathIn (directory : String) (unit : OutputUnit) : String := Path.join directory unit.fileName

/-- The place that a unit is written to. -/
def placeIn (directory : String) (unit : OutputUnit) : Place := Path.place (unit.pathIn directory)

end OutputUnit

/-- The directory that units are written to. -/
def CompileOptions.targetDirectory (o : CompileOptions) : String :=
  o.outputDirectory.getD CompileOptions.defaultDirectory

/-! ### Repeated names -/

/-- Nothing is refused when the names of the units are different from each other and from those
before. -/
theorem duplicateOutput?_eq_none (h : duplicateOutput? taken units = none) :
    (units.map OutputUnit.fileName).Nodup ∧
      ∀ unit ∈ units, ∀ first ∈ taken, first.fileName ≠ unit.fileName := by
  induction units generalizing taken with
  | nil => exact ⟨List.nodup_nil, by simp⟩
  | cons unit units ih =>
    rw [duplicateOutput?] at h
    split at h
    · cases h
    · next hfind =>
      obtain ⟨hnodup, hrest⟩ := ih h
      have hunit : ∀ first ∈ taken, first.fileName ≠ unit.fileName := by
        simpa using hfind
      refine ⟨List.nodup_cons.mpr ⟨fun hmem => ?_, hnodup⟩, fun u hu => ?_⟩
      · obtain ⟨later, hlater, hname⟩ := List.mem_map.mp hmem
        exact hrest later hlater unit (List.mem_cons_self ..) hname.symm
      · rcases List.mem_cons.mp hu with rfl | hu
        · exact hunit
        · exact fun first hfirst => hrest u hu first (List.mem_cons_of_mem _ hfirst)

/-- What is refused is the first unit with the name of one before, whose names are different. -/
theorem duplicateOutput?_eq_some (htaken : (taken.map OutputUnit.fileName).Nodup)
    (h : duplicateOutput? taken units = some e) : ∃ before unit after first,
      units = before ++ unit :: after ∧
        ((before.reverse ++ taken).map OutputUnit.fileName).Nodup ∧
        first ∈ before.reverse ++ taken ∧ first.fileName = unit.fileName ∧
        e = .duplicateOutput unit.fileName first.sourcePath unit.sourcePath := by
  induction units generalizing taken with
  | nil => cases h
  | cons unit units ih =>
    rw [duplicateOutput?] at h
    split at h
    · next first hfind =>
      obtain rfl := Option.some.inj h
      exact ⟨[], unit, units, first, rfl, htaken, List.mem_of_find?_eq_some hfind,
        by simpa using List.find?_some hfind, rfl⟩
    · next hfind =>
      have hunit : unit.fileName ∉ taken.map OutputUnit.fileName := by
        simpa using hfind
      have hnames : ((unit :: taken).map OutputUnit.fileName).Nodup :=
        List.nodup_cons.mpr ⟨hunit, htaken⟩
      obtain ⟨before, later, after, first, rfl, hnodup, hfirst, hname, he⟩ := ih hnames h
      refine ⟨unit :: before, later, after, first, rfl, ?_, ?_, hname, he⟩
      · simpa using hnodup
      · simpa using hfirst

/-! ### Writing -/

theorem run_writeUnit (directory : String) (unit : OutputUnit) (fs : FileSystem) :
    (writeUnit FileSystem.access directory unit).run fs =
      match fs.createParent (unit.pathIn directory) with
      | (.error e, fs₁) => (.error e, fs₁)
      | (.ok _, fs₁) =>
        ((fs₁.write (unit.pathIn directory) unit.code).1.map fun _ => unit.pathIn directory,
          (fs₁.write (unit.pathIn directory) unit.code).2) := by
  unfold writeUnit FileSystem.createParent OutputUnit.pathIn
  dsimp only
  cases Path.parent? (Path.join directory unit.fileName) with
  | none => rfl
  | some parent =>
    have hrun : (FileSystem.access.createDirectories parent).run fs = fs.createDirectories parent :=
      rfl
    simp only [StateT.run_bind, hrun]
    rcases fs.createDirectories parent with ⟨e | u, fs₁⟩
    · rfl
    · rfl

theorem run_writeUnits_cons (directory : String) (unit : OutputUnit) (units : List OutputUnit)
    (fs : FileSystem) : (writeUnits FileSystem.access directory (unit :: units)).run fs =
      match (writeUnit FileSystem.access directory unit).run fs with
      | (.error e, fs₁) => (.error e, fs₁)
      | (.ok path, fs₁) =>
        (((writeUnits FileSystem.access directory units).run fs₁).1.map (path :: ·),
          ((writeUnits FileSystem.access directory units).run fs₁).2) := by
  rw [writeUnits, StateT.run_bind]
  rcases (writeUnit FileSystem.access directory unit).run fs with ⟨e | path, fs₁⟩
  · rfl
  · rfl

/-- A unit that is written can be read, and other files are as before. -/
theorem writeUnit_eq_ok
    (h : (writeUnit FileSystem.access directory unit).run fs = (.ok path, fs')) :
    path = unit.pathIn directory ∧ fs'.read path = .ok unit.code ∧
      FileSystem.Keeps [unit.placeIn directory] fs fs' := by
  rw [run_writeUnit] at h
  have hparent := fs.keeps_createParent (unit.pathIn directory)
  rcases hmade : fs.createParent (unit.pathIn directory) with ⟨e | u, fs₁⟩
  · rw [hmade] at h
    cases (Prod.mk.inj h).1
  · rw [hmade] at h hparent
    rcases hwrite : fs₁.write (unit.pathIn directory) unit.code with ⟨e | u, fs₂⟩
    · simp only [hwrite] at h
      cases (Prod.mk.inj h).1
    · simp only [hwrite] at h
      obtain ⟨hpath, rfl⟩ := Prod.mk.inj h
      obtain rfl := Except.ok.inj hpath
      obtain ⟨hread, hkeeps⟩ := FileSystem.write_eq_ok hwrite
      exact ⟨rfl, hread, hparent.trans hkeeps⟩

/-- Units that are written are at their paths, each in its file if the files are different. -/
theorem writeUnits_eq_ok
    (h : (writeUnits FileSystem.access directory units).run fs = (.ok paths, fs')) :
    paths = units.map (OutputUnit.pathIn directory) ∧
      FileSystem.Keeps (units.map (OutputUnit.placeIn directory)) fs fs' ∧
      ((units.map (OutputUnit.placeIn directory)).Nodup →
        List.Forall₂ (fun unit path => fs'.read path = .ok unit.code) units paths) := by
  induction units generalizing fs paths with
  | nil =>
    obtain ⟨hpaths, rfl⟩ := Prod.mk.inj h
    obtain rfl := Except.ok.inj hpaths
    exact ⟨rfl, .refl [] fs, fun _ => .nil⟩
  | cons unit units ih =>
    rw [run_writeUnits_cons] at h
    rcases hunit : (writeUnit FileSystem.access directory unit).run fs with ⟨e | path, fs₁⟩
    · rw [hunit] at h
      cases (Prod.mk.inj h).1
    · rcases hunits : (writeUnits FileSystem.access directory units).run fs₁ with ⟨e | rest, fs₂⟩
      · simp only [hunit, hunits] at h
        cases (Prod.mk.inj h).1
      · simp only [hunit, hunits] at h
        obtain ⟨hpaths, rfl⟩ := Prod.mk.inj h
        obtain rfl := Except.ok.inj hpaths
        obtain ⟨rfl, hread, hkeeps⟩ := writeUnit_eq_ok hunit
        obtain ⟨rfl, hkeeps', hreads⟩ := ih hunits
        refine ⟨rfl, hkeeps.trans hkeeps', fun hnodup => ?_⟩
        -- the units behind are written to other places
        obtain ⟨hother, hnodup⟩ := List.nodup_cons.mp hnodup
        exact .cons (hkeeps'.read hread hother) (hreads hnodup)

theorem run_writeOutput (o : CompileOptions) (units : List OutputUnit) (fs : FileSystem) :
    (o.writeOutput FileSystem.access units).run fs =
      match duplicateOutput? [] units with
      | some e => (.error e, fs)
      | none =>
        (((writeUnits FileSystem.access o.targetDirectory units).run fs).1.mapError .file,
          ((writeUnits FileSystem.access o.targetDirectory units).run fs).2) := by
  unfold CompileOptions.writeOutput CompileOptions.targetDirectory
  cases duplicateOutput? [] units with
  | none => rfl
  | some e => rfl

/-! ### One file for each unit -/

/-- Some two names of units stand for one place. -/
def Aliased (directory : String) (units : List OutputUnit) : Prop :=
  ∃ unit ∈ units, ∃ other ∈ units, unit.fileName ≠ other.fileName ∧
    unit.placeIn directory = other.placeIn directory

instance (directory : String) (units : List OutputUnit) : Decidable (Aliased directory units) :=
  inferInstanceAs (Decidable (∃ unit ∈ units, ∃ other ∈ units, unit.fileName ≠ other.fileName ∧
    unit.placeIn directory = other.placeIn directory))

/-- What writing may come to. Paths that are returned are those of the units, denote different files,
and hold the code of their units. A refusal for a repeated output leaves the files and names
the first unit whose place is taken, with the one that took it. -/
def Faithful (directory : String) (units : List OutputUnit) (fs fs' : FileSystem) :
    Except CompileError (List String) → Prop
  | .ok paths => paths = units.map (OutputUnit.pathIn directory) ∧ (paths.map Path.place).Nodup ∧
    List.Forall₂ (fun unit path => fs'.read path = .ok unit.code) units paths
  | .error (.duplicateOutput path firstSource secondSource) => fs' = fs ∧
    ∃ before unit after first, units = before ++ unit :: after ∧
      (before.map (OutputUnit.placeIn directory)).Nodup ∧ first ∈ before ∧
      first.placeIn directory = unit.placeIn directory ∧ path = unit.fileName ∧
      firstSource = first.sourcePath ∧ secondSource = unit.sourcePath
  | .error _ => True

variable {o : CompileOptions} {result : Except CompileError (List String)} {registry : Registry}
  {bundle : Option Bundle} {t : Tree}

/-- Where no two names stand for one place, units of different names have different places. -/
theorem nodup_placeIn (h : ¬ Aliased directory units) {before : List OutputUnit}
    (hmem : ∀ unit ∈ before, unit ∈ units) (hnames : (before.map OutputUnit.fileName).Nodup) :
    (before.map (OutputUnit.placeIn directory)).Nodup := by
  refine List.pairwise_map.mpr ((List.pairwise_map.mp hnames).imp_of_mem ?_)
  intro unit other hunit hother hne hplace
  exact h ⟨unit, hmem unit hunit, other, hmem other hother, hne, hplace⟩

theorem faithful_of_not_aliased (h : ¬ Aliased o.targetDirectory units)
    (hw : (o.writeOutput FileSystem.access units).run fs = (result, fs')) :
    Faithful o.targetDirectory units fs fs' result := by
  rw [run_writeOutput] at hw
  cases hduplicate : duplicateOutput? [] units with
  | some e =>
    rw [hduplicate] at hw
    obtain ⟨rfl, rfl⟩ := Prod.mk.inj hw
    have hnone : (([] : List OutputUnit).map OutputUnit.fileName).Nodup := List.nodup_nil
    obtain ⟨before, unit, after, first, rfl, hnames, hfirst, hname, rfl⟩ :=
      duplicateOutput?_eq_some hnone hduplicate
    rw [List.append_nil] at hnames hfirst
    refine ⟨rfl, before, unit, after, first, rfl, nodup_placeIn h ?_ ?_, ?_, ?_, rfl, rfl, rfl⟩
    · exact fun u hu => List.mem_append_left _ hu
    · rwa [List.map_reverse, List.nodup_reverse] at hnames
    · exact List.mem_reverse.mp hfirst
    · rw [OutputUnit.placeIn, OutputUnit.placeIn, OutputUnit.pathIn, OutputUnit.pathIn, hname]
  | none =>
    rw [hduplicate] at hw
    rcases hunits : (writeUnits FileSystem.access o.targetDirectory units).run fs with
      ⟨e | paths, fs₁⟩
    · simp only [hunits] at hw
      obtain ⟨rfl, rfl⟩ := Prod.mk.inj hw
      trivial
    · simp only [hunits] at hw
      obtain ⟨rfl, rfl⟩ := Prod.mk.inj hw
      have hplaces := nodup_placeIn h (fun _ hu => hu) (duplicateOutput?_eq_none hduplicate).1
      obtain ⟨rfl, -, hreads⟩ := writeUnits_eq_ok hunits
      refine ⟨rfl, ?_, hreads hplaces⟩
      rw [List.map_map]
      exact hplaces

/-- Paths that denote different files are those of units without names for one place. -/
theorem not_aliased_of_faithful {paths : List String}
    (h : Faithful directory units fs fs' (.ok paths)) : ¬ Aliased directory units := by
  obtain ⟨rfl, hplaces, -⟩ := h
  rw [List.map_map] at hplaces
  rintro ⟨unit, hunit, other, hother, hne, hplace⟩
  obtain rfl := List.inj_on_of_nodup_map hplaces hunit hother hplace
  exact hne rfl

/-- A refusal for a repeated output comes before anything is written. -/
theorem unchanged_of_duplicateOutput {firstSource secondSource : String}
    (hw : (o.writeOutput FileSystem.access units).run fs =
      (.error (.duplicateOutput path firstSource secondSource), fs')) : fs' = fs := by
  rw [run_writeOutput] at hw
  cases hduplicate : duplicateOutput? [] units with
  | some e =>
    rw [hduplicate] at hw
    exact (Prod.mk.inj hw).2.symm
  | none =>
    rw [hduplicate] at hw
    obtain ⟨hresult, -⟩ := Prod.mk.inj hw
    rcases hunits : ((writeUnits FileSystem.access o.targetDirectory units).run fs).1 with e | paths
    · rw [hunits] at hresult
      cases hresult
    · rw [hunits] at hresult
      cases hresult

/-! ### Units of a tree -/

/-- The path of a file names a file, or the namespace gives no directory without a name. -/
def CompileOptions.SpellsPlainly (o : CompileOptions) (path ns : String) : Prop :=
  match o.target with
  | .js => (Path.fileName? path).isSome
  | .java => "" ∉ Text.split '/' (Java.fileName o.package ns)

theorem CompileOptions.isPlain_fileName {ns : String} (h : o.SpellsPlainly path ns) :
    Path.IsPlain (o.dialect.fileName path ns) := by
  rw [SpellsPlainly] at h
  rw [dialect]
  cases ho : o.target with
  | js =>
    rw [ho] at h
    exact JavaScript.isPlain_fileName h
  | java =>
    rw [ho] at h
    exact Java.isPlain_fileName h

/-- Of two names for one place one is not written plainly. -/
theorem Aliased.exists_not_isPlain (h : Aliased directory units) :
    ∃ unit ∈ units, ¬ Path.IsPlain unit.fileName := by
  obtain ⟨unit, hunit, other, hother, hne, hplace⟩ := h
  by_cases hplain : Path.IsPlain unit.fileName
  · exact ⟨other, hother, fun hplain' => hne (Path.eq_of_place_join_eq hplain hplain' hplace)⟩
  · exact ⟨unit, hunit, hplain⟩

namespace Tree

/-- Every unit of a compiled tree is of a file of the tree. -/
theorem file_of_mem_compiled {fresh : ℕ} {text : String} (hload : Tree.load fresh text = .ok t)
    (hunits : o.compilePrepared registry bundle t = .ok units) (hu : unit ∈ units) :
    ∃ f ∈ t.files, ∃ ns, t.kind f = .file unit.sourcePath ns ∧
      unit.fileName = o.dialect.fileName unit.sourcePath ns := by
  have h := loaded_of_load hload
  rw [CompileOptions.compilePrepared] at hunits
  rcases hp : t.prepare registry (some o.target.backend) with ⟨e | u, t'⟩
  · simp [hp] at hunits
  · simp only [hp] at hunits
    obtain ⟨-, hsame, -⟩ := (h.emittable_prepare (opened_of_load hload) hp).emit_of_generate hunits
    rcases hg : (o.generator registry).generate t' bundle with ⟨result, t₁, scope₁⟩
    rw [hg] at hunits hsame
    obtain rfl : result = .ok units := hunits
    obtain ⟨f, hf, ns, hk, hname⟩ := Generator.file_of_mem_units hg hu
    have hf' : f ∈ t'.files := hsame.files ▸ hf
    have hft : f ∈ t.files := by
      rwa [files, (sameShape_prepare hp).children] at hf'
    obtain ⟨hreach, path, ns', hkt⟩ := h.toFormed.file_of_mem_files hft
    have hkept := h.kind_prepare_of_not_isPrint hp (hreach.has h.consistent.has_root)
      (by rw [hkt]; rfl)
    rw [hsame.kind_file f hf', hkept, hkt] at hk
    exact ⟨f, hft, ns, hkt.trans hk, hname⟩

/-- Units that are written without a failure are each in a file of their own exactly when no two
names of them stand for one place. Two names do so only where a file of the tree has a path
that names no file or a namespace with an empty directory. -/
theorem writeOutput_faithful {fresh : ℕ} {text : String} (hload : Tree.load fresh text = .ok t)
    (hunits : o.compilePrepared registry bundle t = .ok units)
    (hw : (o.writeOutput FileSystem.access units).run fs = (result, fs')) :
    (¬ Aliased o.targetDirectory units → Faithful o.targetDirectory units fs fs' result) ∧
      (∀ paths, result = .ok paths →
        (Faithful o.targetDirectory units fs fs' result ↔ ¬ Aliased o.targetDirectory units)) ∧
      (∀ path firstSource secondSource,
        result = .error (.duplicateOutput path firstSource secondSource) → fs' = fs) ∧
      (Aliased o.targetDirectory units →
        ∃ f ∈ t.files, ∃ path ns, t.kind f = .file path ns ∧ ¬ o.SpellsPlainly path ns) := by
  refine ⟨fun h => faithful_of_not_aliased h hw, fun paths hresult => ?_, ?_, fun h => ?_⟩
  · subst hresult
    exact ⟨not_aliased_of_faithful, fun h => faithful_of_not_aliased h hw⟩
  · rintro path firstSource secondSource rfl
    exact unchanged_of_duplicateOutput hw
  · obtain ⟨unit, hunit, hplain⟩ := h.exists_not_isPlain
    obtain ⟨f, hf, ns, hk, hname⟩ := file_of_mem_compiled hload hunits hunit
    refine ⟨f, hf, unit.sourcePath, ns, hk, fun hspells => hplain ?_⟩
    rw [hname]
    exact CompileOptions.isPlain_fileName hspells

theorem compile_site : siteOptions.compilePrepared .full none site = .ok siteUnits := by
  obtain ⟨t₁, scope₁, hg⟩ := generate_site
  have hprepare : site.prepare .full (some siteOptions.target.backend) = (.ok (), site) :=
    prepare_site
  rw [CompileOptions.compilePrepared, hprepare]
  exact congrArg Generation.result hg

/-- The units of the site are written to files of their own. -/
theorem writeOutput_faithful_site : ∃ fs, Faithful "out" siteUnits .empty fs
    (.ok ["out/pages/home.js", "/.js"]) := by
  rcases hw : (siteOptions.writeOutput FileSystem.access siteUnits).run .empty with ⟨result, fs⟩
  have hresult : ((siteOptions.writeOutput FileSystem.access siteUnits).run .empty).1 =
      .ok ["out/pages/home.js", "/.js"] := by decide +kernel
  rw [hw] at hresult
  obtain rfl : result = .ok ["out/pages/home.js", "/.js"] := hresult
  exact ⟨fs, (writeOutput_faithful load_siteText compile_site hw).1 (by decide +kernel)⟩

/-! ### Two names for one place -/

/-- Two files, one of which has an empty segment in its namespace. -/
def overlapText : String := "[[[\"one.tmpl\",\"a..b.x\"],[\"two.tmpl\",\"a.b.x\"]]]"

def overlap : Tree :=
  ⟨#[⟨0, .fileSet, none, [⟨1⟩, ⟨2⟩]⟩, ⟨1, .file "one.tmpl" "a..b.x", some root, []⟩,
    ⟨2, .file "two.tmpl" "a.b.x", some root, []⟩], 3⟩

def overlapOptions : CompileOptions := .ofInput "overlap.json" .java

/-- The classes of the files, the second of which is written over the first. -/
def overlapUnits : List OutputUnit :=
  (overlapOptions.compilePrepared .full none overlap).toOption.getD []

theorem load_overlapText : Tree.load 0 overlapText = .ok overlap := by decide +kernel

theorem compile_overlap :
    overlapOptions.compilePrepared .full none overlap = .ok overlapUnits := by
  have hok : (overlapOptions.compilePrepared .full none overlap).toOption.isSome := by
    decide +kernel
  exact eq_ok_of_isSome hok []

/-- Not all units that are written without a failure keep their code. -/
theorem not_all_writeOutput_faithful :
    ¬ ∀ (fresh : ℕ) (text : String) (t : Tree) (registry : Registry) (o : CompileOptions)
        (bundle : Option Bundle) (units : List OutputUnit) (fs fs' : FileSystem)
        (result : Except CompileError (List String)),
      Tree.load fresh text = .ok t → o.compilePrepared registry bundle t = .ok units →
      (o.writeOutput FileSystem.access units).run fs = (result, fs') →
      Faithful o.targetDirectory units fs fs' result := by
  intro h
  rcases hw : (overlapOptions.writeOutput FileSystem.access overlapUnits).run .empty with
    ⟨result, fs⟩
  have hfaithful := h 0 overlapText overlap .full overlapOptions none overlapUnits .empty fs result
    load_overlapText compile_overlap hw
  have hresult : ((overlapOptions.writeOutput FileSystem.access overlapUnits).run .empty).1 =
      .ok ["out/a//b/XTemplates.java", "out/a/b/XTemplates.java"] := by decide +kernel
  rw [hw] at hresult
  obtain rfl : result = .ok _ := hresult
  exact not_aliased_of_faithful hfaithful (by decide +kernel)

end Tree

end TemplateLang
