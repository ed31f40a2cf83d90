import TemplateLang.Proofs.JavaScript.Namespace
import TemplateLang.Proofs.Target.Units

/-! Declarations of generated JavaScript. The unit of a file has the guards of its namespace and
behind them the templates in effect, each assigned to its own name. A template that is named for
another namespace, as one that overrides a template may be, has no guards for its objects. -/

namespace TemplateLang

open WriterStep

namespace JavaScript

/-- The lines of a template are those of its assignment. -/
theorem templateLines_eq (declares : Bool) (name : String) (body : List Statement) :
    (dialect declares).templateLines bodyNames 0 name body = assignmentLines name body := by
  simp [Dialect.templateLines, assignmentLines, dialect, assignmentLine]

end JavaScript

/-! ### Generated units -/

/-- The namespace of a file and the name of a template have identifiers as their segments. -/
def NodeKind.hasDottedName : NodeKind → Bool
  | .file _ name | .template name _ _ => (Text.split '.' name).all Text.isIdentifier
  | _ => true

namespace Tree

open JavaScript

variable {t t' t₁ : Tree} {templates : TemplateSet} {f : NodeRef} {unit : OutputUnit}
  {registry registry' : Registry} {backend : Option Backend} {path ns : String}
  {assigned : List (String × List Statement)}

/-- The name of the template `n` with the statements of its body, which stands in `t₁`. -/
def Outlines (t t₁ : Tree) (registry : Registry) (n : NodeRef) (a : String × List Statement) :
    Prop :=
  (∃ isOverride autoescape, t.kind n = .template a.1 isOverride autoescape) ∧
    outlineBody (dialect true) registry (fun callee => callee) (t₁.view n).children = .ok a.2

/-- The unit of the file `f` guards its namespace and assigns, one behind the other, the templates
below it that are in effect. -/
structure Assigns (t t₁ : Tree) (registry : Registry) (templates : TemplateSet) (f : NodeRef)
    (unit : OutputUnit) (path ns : String) (assigned : List (String × List Statement)) :
    Prop where
  kind_eq : t.kind f = .file path ns
  code_eq : unit.code = String.join ((unitLines path ns assigned).map CodeLine.render)
  outlines : List.Forall₂ (t.Outlines t₁ registry) (t.inEffectBelow templates f) assigned

theorem Assigns.mem_assigned (h : t.Assigns t₁ registry templates f unit path ns assigned)
    {n : NodeRef} {name : String} {isOverride autoescape : Bool}
    (hn : n ∈ t.inEffectBelow templates f) (hk : t.kind n = .template name isOverride autoescape) :
    name ∈ assigned.map (·.1) := by
  obtain ⟨a, ha, ⟨isOverride', autoescape', hk'⟩, -⟩ := exists_of_forall₂ h.outlines hn
  obtain ⟨rfl, -, -⟩ := NodeKind.template.inj (hk.symm.trans hk')
  exact List.mem_map_of_mem ha

/-- Sections are assignments. -/
theorem exists_assigned {o : CompileOptions} (ho : o.target = .js)
    (hdeclares : o.declaresNamespaces = true) {refs : List NodeRef} {texts : List String}
    (hkinds : ∀ n ∈ refs, t₁.kind n = t.kind n)
    (htexts : List.Forall₂
      (fun n text => ∃ name body, IsSection o registry ns 0 (t₁.view n) text name body)
      refs texts) :
    ∃ assigned, List.Forall₂ (t.Outlines t₁ registry) refs assigned ∧ String.join texts =
      String.join ((assigned.flatMap fun a => assignmentLines a.1 a.2).map CodeLine.render) := by
  induction htexts with
  | nil => exact ⟨[], .nil, rfl⟩
  | @cons n text refs texts htext _ ih =>
    obtain ⟨assigned, hall, hjoin⟩ := ih fun m hm => hkinds m (List.mem_cons_of_mem n hm)
    obtain ⟨name, body, -, hkind, hbody, rfl⟩ := htext
    have hdialect := CompileOptions.dialect_js ho
    rw [hdeclares] at hdialect
    rw [kind_view, hkinds n (List.mem_cons_self ..)] at hkind
    rw [hdialect, CompileOptions.callTarget_js ho] at hbody
    refine ⟨(name, body) :: assigned, .cons ⟨hkind, hbody⟩ hall, ?_⟩
    rw [String.join_cons, hjoin, List.flatMap_cons, List.map_append, String.join_append, hdialect,
      ho]
    exact congrArg (fun lines => String.join (lines.map CodeLine.render) ++ _)
      (templateLines_eq true name body)

theorem exists_assigns {o : CompileOptions} (ho : o.target = .js)
    (hdeclares : o.declaresNamespaces = true)
    (h : UnitOf o registry templates t t₁ f unit) :
    ∃ path ns assigned, t.Assigns t₁ registry templates f unit path ns assigned := by
  obtain ⟨path, ns, texts, hk, -, -, hcode, hkinds, htexts⟩ := h
  have hdialect := CompileOptions.dialect_js ho
  rw [hdeclares] at hdialect
  have hhead : (dialect true).fileHead path ns =
      ⟨0, (Dialect.header path).lines ++ ((guardLines ns).map (CodeLine.text 0)).toArray⟩ :=
    CodeWriter.foldl_line (Dialect.header path) (guardLines ns)
  have hend : (dialect true).fileEnd path ns = "" := CodeWriter.code_nil _
  rw [hdialect, hhead] at hcode htexts
  obtain ⟨assigned, hall, hjoin⟩ := exists_assigned ho hdeclares hkinds htexts
  refine ⟨path, ns, assigned, hk, ?_, hall⟩
  rw [hcode, hend, hjoin, String.append_empty, CodeWriter.code, ← String.join_append,
    ← List.map_append, unitLines, guardLines_eq, Array.toList_append, List.map_map]
  rfl

/-- What generation writes with declarations are units that assign the templates in effect. -/
theorem exists_assigns_of_generate {fresh : ℕ} {text : String} {o : CompileOptions}
    {bundle : Option Bundle} {units : List OutputUnit} {scope : Scope}
    (hload : Tree.load fresh text = .ok t)
    (hprepare : t.prepare registry backend = (.ok (), t')) (ho : o.target = .js)
    (hdeclares : o.declaresNamespaces = true)
    (hg : (o.generator registry').generate t' bundle = ⟨.ok units, t₁, scope⟩) :
    ∃ templates, TemplateSet.resolve t' o.policy = .ok templates ∧
      List.Forall₂ (fun f unit => ∃ path ns assigned,
        t'.Assigns t₁ registry' templates f unit path ns assigned) t'.files units := by
  have hemit := (loaded_of_load hload).emittable_prepare (opened_of_load hload) hprepare
  have hof := hemit.units_of_generate (congrArg Generation.result hg)
  rw [hg] at hof
  exact ⟨_, hemit.named.resolve_eq o.policy,
    hof.imp fun f unit hunit => exists_assigns ho hdeclares hunit⟩

/-- The objects that a template is assigned into are declared before it exactly when its name lies
in the namespace of its file. Every unit guards the objects that this namespace names, and before
each object those around it, and behind the guards it assigns the templates in effect. -/
theorem units_declare_iff {fresh : ℕ} {text : String} {o : CompileOptions}
    {bundle : Option Bundle} {units : List OutputUnit} {scope : Scope}
    (hload : Tree.load fresh text = .ok t)
    (hprepare : t.prepare registry backend = (.ok (), t')) (ho : o.target = .js)
    (hdeclares : o.declaresNamespaces = true)
    (hg : (o.generator registry').generate t' bundle = ⟨.ok units, t₁, scope⟩) :
    ∃ templates, TemplateSet.resolve t' o.policy = .ok templates ∧
      List.Forall₂ (fun f unit => ∃ path ns assigned,
        t'.Assigns t₁ registry' templates f unit path ns assigned ∧
        (∀ object, .text 0 (guardOf object) ∈ unitLines path ns assigned ↔
          object ∈ objects (Text.split '.' ns)) ∧
        (∀ object, DeclaredBefore (unitLines path ns assigned) (.text 0 (guardOf object)) object) ∧
        (∀ name, .text 0 (assignmentLine name) ∈ unitLines path ns assigned ↔
          name ∈ assigned.map (·.1)) ∧
        ∀ name ∈ assigned.map (·.1),
          (DeclaredBefore (unitLines path ns assigned) (.text 0 (assignmentLine name)) name ↔
            IsWithin ns name)) t'.files units := by
  obtain ⟨templates, hresolve, hunits⟩ :=
    exists_assigns_of_generate hload hprepare ho hdeclares hg
  refine ⟨templates, hresolve, hunits.imp ?_⟩
  rintro f unit ⟨path, ns, assigned, hassigns⟩
  exact ⟨path, ns, assigned, hassigns, fun _ => guard_mem_unitLines,
    declaredBefore_guard path ns assigned, fun _ => assignment_mem_unitLines,
    fun _ hname => declaredBefore_assignment_iff hname⟩

/-! ### A menu and a foreign name -/

/-- A menu in its own namespace, and a template that is named for another one. -/
def menuText : String := String.join
  ["[[[\"menu.tmpl\",\"app.ui\",[[\"app.ui.menu\",false,true,[]]]],",
    "[\"lib.tmpl\",\"lib\",[[\"other.full\",false,true,[]]]]]]"]

def menu : Tree :=
  ⟨#[⟨0, .fileSet, none, [⟨1⟩, ⟨3⟩]⟩, ⟨1, .file "menu.tmpl" "app.ui", some root, [⟨2⟩]⟩,
    ⟨2, .template "app.ui.menu" false true, some ⟨1⟩, []⟩,
    ⟨3, .file "lib.tmpl" "lib", some root, [⟨4⟩]⟩,
    ⟨4, .template "other.full" false true, some ⟨3⟩, []⟩], 5⟩

def menuOptions : CompileOptions := .ofInput "menu.json" .js

def menuTemplates : TemplateSet := ⟨[("app.ui.menu", ⟨2⟩), ("other.full", ⟨4⟩)]⟩

theorem load_menuText : Tree.load 0 menuText = .ok menu :=
  (load_of_toList 0 String.toList_join).trans (by decide +kernel)

theorem prepare_menu : menu.prepare .full (some .jsSource) = (.ok (), menu) := by
  decide +kernel

theorem resolve_menu : TemplateSet.resolve menu menuOptions.policy = .ok menuTemplates := by
  decide +kernel

theorem generate_menu : ∃ units t₁ scope,
    (menuOptions.generator .full).generate menu none = ⟨.ok units, t₁, scope⟩ := by
  have hok : ((menuOptions.generator .full).generate menu none).result.toOption.isSome := by
    decide +kernel
  rcases hg : (menuOptions.generator .full).generate menu none with ⟨e | units, t₁, scope⟩
  · rw [hg] at hok
    cases hok
  · exact ⟨units, t₁, scope, rfl⟩

/-- The objects around the menu are declared before it. -/
theorem units_declare_iff_menu : ∃ units t₁ scope,
    (menuOptions.generator .full).generate menu none = ⟨.ok units, t₁, scope⟩ ∧
      owners "app.ui.menu" = ["app", "app.ui"] ∧
      ∃ unit ∈ units, ∃ path assigned,
        menu.Assigns t₁ .full menuTemplates ⟨1⟩ unit path "app.ui" assigned ∧
        .text 0 (assignmentLine "app.ui.menu") ∈ unitLines path "app.ui" assigned ∧
        DeclaredBefore (unitLines path "app.ui" assigned) (.text 0 (assignmentLine "app.ui.menu"))
          "app.ui.menu" := by
  obtain ⟨units, t₁, scope, hg⟩ := generate_menu
  obtain ⟨templates, hresolve, hunits⟩ :=
    units_declare_iff load_menuText prepare_menu rfl rfl hg
  obtain rfl := Except.ok.inj (hresolve.symm.trans resolve_menu)
  have hfile : (⟨1⟩ : NodeRef) ∈ menu.files := by decide +kernel
  obtain ⟨unit, hunit, path, ns, assigned, hassigns, -, -, hassigned, hdeclared⟩ :=
    exists_of_forall₂ hunits hfile
  have hkind : menu.kind ⟨1⟩ = .file "menu.tmpl" "app.ui" := by decide +kernel
  obtain ⟨-, rfl⟩ := NodeKind.file.inj (hkind.symm.trans hassigns.kind_eq)
  have htemplate : menu.kind ⟨2⟩ = .template "app.ui.menu" false true := by decide +kernel
  have hname := hassigns.mem_assigned (by decide +kernel) htemplate
  exact ⟨units, t₁, scope, hg, by decide +kernel, unit, hunit, path, assigned, hassigns,
    (hassigned _).mpr hname, (hdeclared _ hname).mpr (by decide +kernel)⟩

def DottedNames (t : Tree) : Prop := ∀ node ∈ t.nodes.toList, node.kind.hasDottedName

/-- Not all units declare what they assign into: a template that is named for another namespace is
assigned into an object that its unit does not declare. -/
theorem not_all_units_declare :
    ¬ ∀ (fresh : ℕ) (text : String) (t t' t₁ : Tree) (registry : Registry)
        (backend : Option Backend) (o : CompileOptions) (bundle : Option Bundle)
        (units : List OutputUnit) (scope : Scope) (templates : TemplateSet),
      Tree.load fresh text = .ok t → t.DottedNames → t.prepare registry backend = (.ok (), t') →
      o.target = .js → o.declaresNamespaces = true →
      (o.generator registry).generate t' bundle = ⟨.ok units, t₁, scope⟩ →
      TemplateSet.resolve t' o.policy = .ok templates →
      ∀ f ∈ t'.files, ∀ unit ∈ units, ∀ path ns assigned,
        t'.Assigns t₁ registry templates f unit path ns assigned →
        ∀ name ∈ assigned.map (·.1),
          DeclaredBefore (unitLines path ns assigned) (.text 0 (assignmentLine name)) name := by
  intro h
  obtain ⟨units, t₁, scope, hg⟩ := generate_menu
  obtain ⟨templates, hresolve, hunits⟩ :=
    exists_assigns_of_generate load_menuText prepare_menu rfl rfl hg
  obtain rfl := Except.ok.inj (hresolve.symm.trans resolve_menu)
  have hfile : (⟨3⟩ : NodeRef) ∈ menu.files := by decide +kernel
  obtain ⟨unit, hunit, path, ns, assigned, hassigns⟩ := exists_of_forall₂ hunits hfile
  have hkind : menu.kind ⟨3⟩ = .file "lib.tmpl" "lib" := by decide +kernel
  obtain ⟨-, rfl⟩ := NodeKind.file.inj (hkind.symm.trans hassigns.kind_eq)
  have htemplate : menu.kind ⟨4⟩ = .template "other.full" false true := by decide +kernel
  have hname := hassigns.mem_assigned (by decide +kernel) htemplate
  have hdotted : menu.DottedNames := by
    unfold DottedNames
    decide +kernel
  have hdeclared := h 0 menuText menu menu t₁ .full _ menuOptions none units scope menuTemplates
    load_menuText hdotted prepare_menu rfl rfl hg resolve_menu ⟨3⟩ hfile unit hunit path "lib"
    assigned hassigns "other.full" hname
  exact absurd ((declaredBefore_assignment_iff hname).mp hdeclared) (by decide +kernel)

end Tree

end TemplateLang
