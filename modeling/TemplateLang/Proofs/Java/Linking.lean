import TemplateLang.Proofs.Java.Names
import TemplateLang.Proofs.Target.Calls
import TemplateLang.Proofs.Target.Structure
import TemplateLang.Proofs.Target.Units

/-! Links between generated Java classes. A call statement names a class and a method, and the file
of the definition in effect gives the class that holds it. The class that a statement names comes
from the callee alone and that of a definition from its file, so they agree when every template
has the namespace of its file in its name, and may not when a template of another namespace stands
in a file. -/

namespace TemplateLang

variable {package : Option String} {ns ns' callee : String}

namespace Java

/-! ### Classes and methods of statements -/

/-- The class in which the target of a call is looked up: the one that qualifies it, or else the one
around the call. -/
def targetClass (enclosing target : String) : String :=
  (Text.beforeLast? '.' target).getD enclosing

/-- The namespace that the name of a callee has, for a call in the namespace `ns`. -/
def calleeNamespace (ns callee : String) : String := (Text.beforeLast? '.' callee).getD ns

theorem targetClass_callTarget (package : Option String) (ns callee : String) :
    targetClass (qualifiedClass package ns) (callTarget package ns callee) =
      qualifiedClass package (calleeNamespace ns callee) := by
  have hmethod : Text.beforeLast? '.' (methodName callee) = none :=
    Text.beforeLast?_eq_none (dot_not_mem_methodName callee)
  rw [targetClass, callTarget, calleeNamespace]
  cases Text.beforeLast? '.' callee with
  | none =>
    simp only [hmethod]
    rfl
  | some calleeNs =>
    by_cases hns : calleeNs = ns
    · simp only [hns, ne_eq, not_true_eq_false, if_false, hmethod]
      rfl
    · have hlast := (Text.last_append (s := qualifiedClass package calleeNs)
        (dot_not_mem_methodName callee)).1
      simp only [ne_eq, hns, not_false_eq_true, if_true]
      exact congrArg (Option.getD · _) hlast

theorem methodName_callTarget (package : Option String) (ns callee : String) :
    methodName (callTarget package ns callee) = methodName callee := by
  have hmethod : methodName (methodName callee) = methodName callee :=
    Text.lastSegment_eq_self (dot_not_mem_methodName callee)
  rw [callTarget]
  cases Text.beforeLast? '.' callee with
  | none => exact hmethod
  | some calleeNs =>
    by_cases hns : calleeNs = ns
    · simp only [hns, ne_eq, not_true_eq_false, if_false]
      exact hmethod
    · simp only [ne_eq, hns, not_false_eq_true, if_true]
      exact (Text.last_append (s := qualifiedClass package calleeNs)
        (dot_not_mem_methodName callee)).2

/-- A qualified class is taken apart at its last dot. -/
theorem last_qualifiedClass (package : Option String) (ns : String) :
    Text.beforeLast? '.' (qualifiedClass package ns) = packageOf package ns ∧
      Text.lastSegment '.' (qualifiedClass package ns) = className ns := by
  have hdot := dot_not_mem_className ns
  rw [qualifiedClass]
  cases packageOf package ns with
  | none => exact ⟨Text.beforeLast?_eq_none hdot, Text.lastSegment_eq_self hdot⟩
  | some p => exact Text.last_append hdot

/-- A qualified class has one file. -/
theorem fileName_eq_of_qualifiedClass_eq
    (h : qualifiedClass package ns = qualifiedClass package ns') :
    fileName package ns = fileName package ns' := by
  obtain ⟨hpackage, hclass⟩ := last_qualifiedClass package ns
  obtain ⟨hpackage', hclass'⟩ := last_qualifiedClass package ns'
  rw [h, hpackage'] at hpackage
  rw [h, hclass'] at hclass
  rw [fileName, fileName, hpackage, hclass]

end Java

/-! ### Generated classes -/

namespace Tree

open WriterStep

variable {t t' t₁ : Tree} {f f' m n : NodeRef} {templates : TemplateSet}

/-- The class that is generated for a file. -/
def javaClass? (t : Tree) (package : Option String) (f : NodeRef) : Option String :=
  match t.kind f with
  | .file _ ns => some (Java.qualifiedClass package ns)
  | _ => none

/-- The method that is generated for a template. -/
def javaMethod? (t : Tree) (n : NodeRef) : Option String :=
  (t.definition? n).map fun e => Java.methodName e.1

/-- The methods that the class `name` gets for the templates in effect. -/
def javaMethods (t : Tree) (templates : TemplateSet) (package : Option String) (name : String) :
    List String :=
  (t.files.filter fun f => t.javaClass? package f = some name).flatMap fun f =>
    (t.inEffectBelow templates f).filterMap t.javaMethod?

/-- In a class of namespace `ns` a call of `target` links to the file `f`: it names the class of
this file, which has exactly one method with the called name. -/
structure Links (t : Tree) (templates : TemplateSet) (package : Option String) (ns target : String)
    (f : NodeRef) : Prop where
  class_eq : t.javaClass? package f =
    some (Java.targetClass (Java.qualifiedClass package ns) target)
  one_method : (t.javaMethods templates package
    (Java.targetClass (Java.qualifiedClass package ns) target)).count (Java.methodName target) = 1

/-- Below a template in effect in a file of namespace `ns` there is a call of `callee`, whose
definition in effect is `m` in the file `f`. The files and templates are those of `t`, what is
below templates is that of `t₁`. -/
def CallsDefinition (t t₁ : Tree) (templates : TemplateSet) (ns callee : String) (m f : NodeRef) :
    Prop :=
  templates.get? callee = some m ∧ t.parent m = some f ∧
    ∃ g path n passesData, g ∈ t.files ∧ t.kind g = .file path ns ∧
      n ∈ t.inEffectBelow templates g ∧ (callee, passesData) ∈ (t₁.view n).calls

/-- The namespace in the name of the callee has the class of the file of the definition, in which no
other template in effect has the same last segment. -/
structure LeadsTo (t : Tree) (templates : TemplateSet) (package : Option String)
    (ns callee : String) (m f : NodeRef) : Prop where
  class_eq : t.javaClass? package f =
    some (Java.qualifiedClass package (Java.calleeNamespace ns callee))
  alone : ∀ k ∈ t.inEffectBelow templates f, t.javaMethod? k = some (Java.methodName callee) → k = m

/-- Every template in effect has the namespace of its file and one more segment as its name. -/
def InOwnNamespace (t : Tree) (templates : TemplateSet) : Prop :=
  ∀ f ∈ t.files, ∀ path ns, t.kind f = .file path ns → ∀ n ∈ t.inEffectBelow templates f,
    ∀ name isOverride autoescape, t.kind n = .template name isOverride autoescape →
      Text.beforeLast? '.' name = some ns

/-! ### One class and one method -/

section

variable {α : Type} {l : List α} {p : α → Bool} {a : α}

/-- In a list without repetition, `a` is left alone when nothing else passes. -/
theorem filter_eq_singleton (hl : l.Nodup) (ha : a ∈ l) (hp : p a)
    (halone : ∀ b ∈ l, p b → b = a) : l.filter p = [a] := by
  refine List.perm_singleton.mp ((List.perm_ext_iff_of_nodup (hl.filter p)
    (List.nodup_singleton a)).mpr fun b => ?_)
  rw [List.mem_filter, List.mem_singleton]
  constructor
  · exact fun hb => halone b hb.1 hb.2
  · rintro rfl
    exact ⟨ha, hp⟩

theorem countP_eq_one_iff (hl : l.Nodup) (ha : a ∈ l) (hp : p a) :
    l.countP p = 1 ↔ ∀ b ∈ l, p b → b = a := by
  rw [List.countP_eq_length_filter]
  constructor
  · intro hone b hb hpb
    obtain ⟨c, hc⟩ := List.length_eq_one_iff.mp hone
    have honly : ∀ d ∈ l, p d → d = c := fun d hd hpd =>
      List.mem_singleton.mp (hc ▸ List.mem_filter.mpr ⟨hd, hpd⟩)
    rw [honly b hb hpb, honly a ha hp]
  · intro halone
    rw [filter_eq_singleton hl ha hp halone]
    rfl

end

theorem javaClass?_eq_some {c : String} : t.javaClass? package f = some c ↔
    ∃ path ns, t.kind f = .file path ns ∧ Java.qualifiedClass package ns = c := by
  rw [javaClass?]
  cases t.kind f <;> simp

theorem javaMethod?_of_kind {name : String} {isOverride autoescape : Bool}
    (hk : t.kind n = .template name isOverride autoescape) :
    t.javaMethod? n = some (Java.methodName name) := by
  rw [javaMethod?, definition?, hk]
  rfl

/-- Files have classes of their own. -/
def DistinctClasses (t : Tree) (package : Option String) : Prop :=
  ∀ f ∈ t.files, ∀ g ∈ t.files, ∀ c, t.javaClass? package f = some c →
    t.javaClass? package g = some c → f = g

theorem javaMethods_eq (h : t.Consistent) (hd : t.DistinctClasses package) (hf : f ∈ t.files)
    {c : String} (hc : t.javaClass? package f = some c) :
    t.javaMethods templates package c = (t.inEffectBelow templates f).filterMap t.javaMethod? := by
  have hfiles : (t.files.filter fun g => t.javaClass? package g = some c) = [f] :=
    filter_eq_singleton (h.nodup_children root) hf (by simpa using hc)
      fun g hg hgc => hd g hg f hf c (by simpa using hgc) hc
  rw [javaMethods, hfiles, List.flatMap_singleton]

variable {policy : OverridePolicy}

/-- A definition in effect stands below its file. -/
theorem Named.mem_inEffectBelow (h : t.Named) (hc : t.Consistent)
    (hm : (TemplateSet.ofDefinitions policy t.definitions).get? callee = some m)
    (hf : t.parent m = some f) :
    f ∈ t.files ∧ m ∈ t.inEffectBelow (.ofDefinitions policy t.definitions) f ∧
      ∃ isOverride autoescape, t.kind m = .template callee isOverride autoescape := by
  obtain ⟨-, hmem, isOverride, autoescape, hk⟩ := h.of_get? hm
  obtain ⟨g, hg, hmg⟩ := List.mem_flatMap.mp hmem
  obtain rfl : g = f := Option.some.inj (((hc.mem_children g m).mp hmg).symm.trans hf)
  refine ⟨hg, List.mem_filter.mpr ⟨hmg, ?_⟩, isOverride, autoescape, hk⟩
  rw [TemplateSet.isInEffect, hk]
  exact decide_eq_true hm

theorem links_iff_leadsTo (h : t.Named) (hc : t.Consistent) (hd : t.DistinctClasses package)
    (hm : (TemplateSet.ofDefinitions policy t.definitions).get? callee = some m)
    (hf : t.parent m = some f) :
    t.Links (.ofDefinitions policy t.definitions) package ns (Java.callTarget package ns callee) f ↔
      t.LeadsTo (.ofDefinitions policy t.definitions) package ns callee m f := by
  obtain ⟨hfile, hbelow, isOverride, autoescape, hk⟩ := h.mem_inEffectBelow hc hm hf
  have hnodup : (t.inEffectBelow (.ofDefinitions policy t.definitions) f).Nodup :=
    (hc.nodup_children f).filter _
  have hclass := Java.targetClass_callTarget package ns callee
  have hmethod := Java.methodName_callTarget package ns callee
  -- The class has the methods of this file and of no other, each from a node of its own.
  have hcount : ∀ c, t.javaClass? package f = some c →
      ((t.javaMethods (.ofDefinitions policy t.definitions) package c).count
          (Java.methodName callee) = 1 ↔
        ∀ k ∈ t.inEffectBelow (.ofDefinitions policy t.definitions) f,
          t.javaMethod? k = some (Java.methodName callee) → k = m) := by
    intro c hc'
    have hpick : (t.javaMethod? m == some (Java.methodName callee)) = true :=
      beq_iff_eq.mpr (javaMethod?_of_kind hk)
    rw [javaMethods_eq hc hd hfile hc', List.count_filterMap]
    exact (countP_eq_one_iff hnodup hbelow hpick).trans (by simp only [beq_iff_eq])
  constructor
  · rintro ⟨hc', hone⟩
    rw [hmethod] at hone
    rw [hclass] at hc' hone
    exact ⟨hc', (hcount _ hc').mp hone⟩
  · rintro ⟨hc', halone⟩
    refine ⟨by rw [hclass, hc'], ?_⟩
    rw [hmethod, hclass]
    exact (hcount _ hc').mpr halone

/-- Where templates are in their own namespaces, every callee leads to its definition. -/
theorem InOwnNamespace.leadsTo (hown : t.InOwnNamespace (.ofDefinitions policy t.definitions))
    (h : t.Formed) (hnamed : t.Named)
    (hm : (TemplateSet.ofDefinitions policy t.definitions).get? callee = some m)
    (hf : t.parent m = some f) :
    t.LeadsTo (.ofDefinitions policy t.definitions) package ns callee m f := by
  obtain ⟨hfile, hbelow, isOverride, autoescape, hk⟩ := hnamed.mem_inEffectBelow h.consistent hm hf
  obtain ⟨-, path, ns', hkf⟩ := h.file_of_mem_files hfile
  have hcallee := hown f hfile path ns' hkf m hbelow callee isOverride autoescape hk
  refine ⟨?_, fun k hkbelow hmethod => ?_⟩
  · rw [Java.calleeNamespace, hcallee, javaClass?_eq_some]
    exact ⟨path, ns', hkf, rfl⟩
  · obtain ⟨⟨name, k⟩, hdefinition, hsame⟩ := Option.map_eq_some_iff.mp hmethod
    obtain ⟨rfl, isOverride', autoescape', hkk⟩ := definition?_eq_some.mp hdefinition
    have hname := hown f hfile path ns' hkf _ hkbelow name isOverride' autoescape' hkk
    have hnames : name = callee := by
      rw [Text.eq_append_of_beforeLast? hname, Text.eq_append_of_beforeLast? hcallee]
      exact congrArg (ns' ++ "." ++ ·) hsame
    have hin := (List.mem_filter.mp hkbelow).2
    rw [TemplateSet.isInEffect, hkk] at hin
    exact Option.some.inj ((of_decide_eq_true hin).symm.trans (hnames ▸ hm))

/-- Units with file names of their own come from classes of their own. -/
theorem distinctClasses_of_units {registry : Registry} {o : CompileOptions}
    {units : List OutputUnit} (ho : o.target = .java)
    (hu : List.Forall₂ (UnitOf o registry templates t t₁) t.files units)
    (hn : (units.map OutputUnit.fileName).Nodup) : t.DistinctClasses o.package := by
  let file (f : NodeRef) : String :=
    match t.kind f with
    | .file _ ns => Java.fileName o.package ns
    | _ => ""
  have hfiles : t.files.map file = units.map OutputUnit.fileName := by
    rw [← List.forall₂_eq_eq_eq, List.forall₂_map_left_iff, List.forall₂_map_right_iff]
    refine hu.imp fun f unit hunit => ?_
    obtain ⟨path, ns, -, hk, -, hname, -⟩ := hunit
    rw [hname, CompileOptions.dialect_java ho]
    simp only [file, hk]
    rfl
  intro f hf g hg c hfc hgc
  obtain ⟨path, ns, hk, rfl⟩ := javaClass?_eq_some.mp hfc
  obtain ⟨path', ns', hk', hclass⟩ := javaClass?_eq_some.mp hgc
  refine List.inj_on_of_nodup_map (hfiles ▸ hn) hf hg ?_
  simp only [file, hk, hk']
  exact Java.fileName_eq_of_qualifiedClass_eq hclass.symm

/-- In generated Java each call in a template in effect becomes a statement. It links to the
definition in effect exactly when the name of the callee leads there: the namespace in the name has
the class of the file of the definition, and no other template in effect there has the same last
segment. So all calls link where templates are in their own namespaces. -/
theorem javaCalls_link_iff {fresh : ℕ} {text : String} {registry registry' : Registry}
    {o : CompileOptions} {bundle : Option Bundle} {units : List OutputUnit} {scope : Scope}
    (hload : Tree.load fresh text = .ok t)
    (hprepare : t.prepare registry (some .javaSource) = (.ok (), t')) (ho : o.target = .java)
    (hg : (o.generator registry').generate t' bundle = ⟨.ok units, t₁, scope⟩)
    (hunits : (units.map OutputUnit.fileName).Nodup) :
    ∃ templates, TemplateSet.resolve t' o.policy = .ok templates ∧
      List.Forall₂ (UnitOf o registry' templates t' t₁) t'.files units ∧
      (∀ f ∈ t'.files, ∀ path ns, t'.kind f = .file path ns →
        ∀ n ∈ t'.inEffectBelow templates f, ∃ body,
          (∀ u, o.dialect.emitNodes registry' ns u (t₁.view n).children =
            .ok (run u (bodySteps o.target.bodyNames body))) ∧
          bodyCalls body = (t₁.view n).calls.map (aimed (Java.callTarget o.package ns))) ∧
      (∀ ns callee m f, t'.CallsDefinition t₁ templates ns callee m f →
        (t'.Links templates o.package ns (Java.callTarget o.package ns callee) f ↔
          t'.LeadsTo templates o.package ns callee m f)) ∧
      (t'.InOwnNamespace templates → ∀ ns callee m f,
        t'.CallsDefinition t₁ templates ns callee m f →
          t'.Links templates o.package ns (Java.callTarget o.package ns callee) f) := by
  have h' := (loaded_of_load hload).prepare hprepare
  have hemit := (loaded_of_load hload).emittable_prepare (opened_of_load hload) hprepare
  have hof := hemit.units_of_generate (congrArg Generation.result hg)
  rw [hg] at hof
  have hdistinct : t'.DistinctClasses o.package := distinctClasses_of_units ho hof hunits
  have hlinks : ∀ ns callee m f,
      t'.CallsDefinition t₁ (.ofDefinitions o.policy t'.definitions) ns callee m f →
        (t'.Links (.ofDefinitions o.policy t'.definitions) o.package ns
            (Java.callTarget o.package ns callee) f ↔
          t'.LeadsTo (.ofDefinitions o.policy t'.definitions) o.package ns callee m f) := by
    rintro ns callee m f ⟨hm, hf, -⟩
    exact links_iff_leadsTo hemit.named h'.consistent hdistinct hm hf
  refine ⟨.ofDefinitions o.policy t'.definitions, hemit.named.resolve_eq o.policy, hof, ?_, hlinks,
    fun hown ns callee m f hcall => ?_⟩
  · intro f hf path ns hk n hn
    obtain ⟨unit, -, path', ns', texts, hk', -, -, -, -, htexts⟩ := exists_of_forall₂ hof hf
    obtain ⟨rfl, rfl⟩ := NodeKind.file.inj (hk.symm.trans hk')
    obtain ⟨text, -, name, body, hsection⟩ := exists_of_forall₂ htexts hn
    obtain ⟨isOverride, autoescape, htemplate⟩ := hsection.kind_eq
    have houtline : outlineBody o.dialect registry' (o.callTarget ns) (t₁.view n).children =
      .ok body := hsection.outline
    refine ⟨body, fun u => ?_, ?_⟩
    · rw [emitNodes_eq o.writes, houtline]
      rfl
    · rw [calls_outlineBody houtline, View.calls_of_template htemplate,
        CompileOptions.callTarget_java ho]
  · exact (hlinks ns callee m f hcall).mpr
      (hown.leadsTo h'.toFormed hemit.named hcall.1 hcall.2.1)

/-! ### A shop and its theme -/

/-- A page that calls a template of its own file, which a theme overrides, and one of another. -/
def shopText : String := String.join
  ["[[[\"page.tmpl\",\"app\",[[\".page\",false,true,[[\"call\",\".login\",false],",
    "[\"call\",\"shop.cart.show\",true]]],[\".login\",false,true,[]]]],",
    "[\"cart.tmpl\",\"shop.cart\",[[\".show\",false,true,[]]]],",
    "[\"theme.tmpl\",\"theme\",[[\"app.login\",true,true,[]]]]]]"]

def shop : Tree :=
  ⟨#[⟨0, .fileSet, none, [⟨1⟩, ⟨6⟩, ⟨8⟩]⟩, ⟨1, .file "page.tmpl" "app", some root, [⟨2⟩, ⟨5⟩]⟩,
    ⟨2, .template ".page" false true, some ⟨1⟩, [⟨3⟩, ⟨4⟩]⟩,
    ⟨3, .call ".login" false, some ⟨2⟩, []⟩,
    ⟨4, .call "shop.cart.show" true, some ⟨2⟩, []⟩,
    ⟨5, .template ".login" false true, some ⟨1⟩, []⟩,
    ⟨6, .file "cart.tmpl" "shop.cart", some root, [⟨7⟩]⟩,
    ⟨7, .template ".show" false true, some ⟨6⟩, []⟩,
    ⟨8, .file "theme.tmpl" "theme", some root, [⟨9⟩]⟩,
    ⟨9, .template "app.login" true true, some ⟨8⟩, []⟩],
    10⟩

def preparedShop : Tree := (shop.prepare .full (some .javaSource)).2

def shopOptions : CompileOptions := .ofInput "shop.json" .java

/-- The units of the shop. -/
def shopUnits : List OutputUnit :=
  ((shopOptions.generator .full).generate preparedShop none).result.toOption.getD []

def shopTemplates : TemplateSet :=
  ⟨[("app.page", ⟨2⟩), ("app.login", ⟨9⟩), ("shop.cart.show", ⟨7⟩)]⟩

theorem load_shopText : Tree.load 0 shopText = .ok shop :=
  (load_of_toList 0 String.toList_join).trans (by decide +kernel)

theorem prepare_shop : shop.prepare .full (some .javaSource) = (.ok (), preparedShop) := by
  have h : (shop.prepare .full (some .javaSource)).1 = .ok () := by decide +kernel
  exact Prod.ext h rfl

theorem resolve_shop : TemplateSet.resolve preparedShop shopOptions.policy = .ok shopTemplates := by
  decide +kernel

theorem generate_shop : ∃ t₁ scope,
    (shopOptions.generator .full).generate preparedShop none = ⟨.ok shopUnits, t₁, scope⟩ ∧
      ("app.login", false) ∈ (t₁.view ⟨2⟩).calls ∧
      ("shop.cart.show", true) ∈ (t₁.view ⟨2⟩).calls := by
  have hok : ((shopOptions.generator .full).generate preparedShop none).result.toOption.isSome := by
    decide +kernel
  have hcalls : ("app.login", false) ∈
        (((shopOptions.generator .full).generate preparedShop none).tree.view ⟨2⟩).calls ∧
      ("shop.cart.show", true) ∈
        (((shopOptions.generator .full).generate preparedShop none).tree.view ⟨2⟩).calls := by
    decide +kernel
  rw [shopUnits]
  rcases hg : (shopOptions.generator .full).generate preparedShop none with
    ⟨e | units, t₁, scope⟩
  · rw [hg] at hok
    cases hok
  · rw [hg] at hcalls
    exact ⟨t₁, scope, rfl, hcalls⟩

theorem nodup_shopUnits : (shopUnits.map OutputUnit.fileName).Nodup := by
  have hnames : shopUnits.map OutputUnit.fileName =
      ["AppTemplates.java", "shop/CartTemplates.java", "ThemeTemplates.java"] := by
    decide +kernel
  rw [hnames]
  decide

/-- The page calls both templates, and links to the one of the cart. -/
theorem javaCalls_link_iff_shop :
    preparedShop.Links shopTemplates none "app" (Java.callTarget none "app" "shop.cart.show")
      ⟨6⟩ := by
  obtain ⟨t₁, scope, hg, -, hcall⟩ := generate_shop
  obtain ⟨templates, hresolve, -, -, hiff, -⟩ :=
    javaCalls_link_iff load_shopText prepare_shop rfl hg nodup_shopUnits
  obtain rfl := Except.ok.inj (hresolve.symm.trans resolve_shop)
  have hcalls : preparedShop.CallsDefinition t₁ shopTemplates "app" "shop.cart.show" ⟨7⟩ ⟨6⟩ :=
    ⟨by decide, by decide +kernel, ⟨1⟩, "page.tmpl", ⟨2⟩, true, by decide +kernel,
      by decide +kernel, by decide +kernel, hcall⟩
  exact (hiff "app" "shop.cart.show" ⟨7⟩ ⟨6⟩ hcalls).mpr ⟨by decide +kernel, by decide +kernel⟩

/-- Not all calls link: the theme has the definition in effect of the login, which the page looks
for in its own class. -/
theorem not_all_javaCalls_link :
    ¬ ∀ (fresh : ℕ) (text : String) (t t' t₁ : Tree) (registry : Registry) (o : CompileOptions)
        (bundle : Option Bundle) (units : List OutputUnit) (scope : Scope)
        (templates : TemplateSet),
      Tree.load fresh text = .ok t → t.prepare registry (some .javaSource) = (.ok (), t') →
      o.target = .java → (o.generator registry).generate t' bundle = ⟨.ok units, t₁, scope⟩ →
      (units.map OutputUnit.fileName).Nodup →
      TemplateSet.resolve t' o.policy = .ok templates →
      ∀ ns callee m f, t'.CallsDefinition t₁ templates ns callee m f →
        t'.Links templates o.package ns (Java.callTarget o.package ns callee) f := by
  intro h
  obtain ⟨t₁, scope, hg, hcall, -⟩ := generate_shop
  have hcalls : preparedShop.CallsDefinition t₁ shopTemplates "app" "app.login" ⟨9⟩ ⟨8⟩ :=
    ⟨by decide, by decide +kernel, ⟨1⟩, "page.tmpl", ⟨2⟩, false, by decide +kernel,
      by decide +kernel, by decide +kernel, hcall⟩
  have hlinks := h 0 shopText shop preparedShop t₁ .full shopOptions none shopUnits scope
    shopTemplates load_shopText prepare_shop rfl hg nodup_shopUnits resolve_shop "app" "app.login"
    ⟨9⟩ ⟨8⟩ hcalls
  exact absurd hlinks.class_eq (by decide +kernel)

end Tree

end TemplateLang
