import TemplateLang.Proofs.Java.Names
import TemplateLang.Proofs.Target.Fragments
import TemplateLang.Proofs.Target.Sections
import TemplateLang.Proofs.Tree.Shape

/-! The structure of generated bodies. The lines that emission adds for the body of a template are
read back as the statements of the body, at the level where they start, and so is their text.
Values, tests and the names that are called stay on their lines and apart from each other,
because paths and names are of letters, digits and dots and every literal is escaped. Only a
package stands in the text as it was given, and a line feed in it, or a blank in front, disturbs the
lines of the calls that it qualifies. -/

namespace TemplateLang

/-- Paths and callees are of letters, digits and dots. -/
def NodeKind.isNamed : NodeKind → Bool
  | .print e calls _ => e.isNamed && calls.all fun call => call.args.all Expr.isNamed
  | .branch condition => condition.isNamed
  | .call callee _ => Text.isDotted callee
  | _ => true

/-- All nodes of the view are so. -/
def View.IsNamed (v : View) : Prop := ∀ w ∈ v.nodes, w.kind.isNamed

theorem View.IsNamed.child {v c : View} (h : v.IsNamed) (hc : c ∈ v.children) : c.IsNamed := by
  obtain ⟨ref, serial, kind, children⟩ := v
  exact (View.forall_nodes_node.mp h).2 c hc

/-- The fragments of the dialect are clear, and the names that it calls have the property. -/
structure Dialect.Clear (d : Dialect) (names : BodyNames) (target : String → String)
    (P : String → Prop) : Prop where
  keeps : d.Keeps names.Value
  output : '(' ∉ names.output.toList
  target : ∀ callee, Text.isDotted callee → P (target callee)

section

variable {d : Dialect} {names : BodyNames} {registry : Registry} {target : String → String}
  {P : String → Prop}

theorem bodyClear_append {body more : List Statement} (h : BodyClear names P body)
    (h' : BodyClear names P more) : BodyClear names P (body ++ more) := by
  induction body with
  | nil => exact h'
  | cons s body ih => exact ⟨h.1, ih h.2⟩

mutual

theorem clear_outlineNode (hd : d.Clear names target P) : ∀ {v : View} {body : List Statement},
    v.IsNamed → outlineNode d registry target v = .ok body → BodyClear names P body
  | .node ref serial kind children, body, hv, h => by
    have hkind : kind.isNamed := hv _ (View.self_mem_nodes _)
    have hchildren : ∀ c ∈ children, c.IsNamed := fun c hc => hv.child hc
    cases kind with
    | text content =>
      obtain rfl := Except.ok.inj h
      have hvalue := hd.keeps.literal content
      split
      · trivial
      · exact ⟨⟨hvalue.onOneLine, hvalue.notCall hd.output⟩, trivial⟩
    | print e calls escape =>
      obtain ⟨he, hcalls⟩ := Bool.and_eq_true_iff.mp hkind
      obtain ⟨f, hf, h⟩ := bind_eq_ok.mp h
      obtain rfl := Except.ok.inj h
      have hvalue := hd.keeps.printValue he (List.all_eq_true.mp hcalls) hf
      exact ⟨⟨hvalue.onOneLine, hvalue.notCall hd.output⟩, trivial⟩
    | cond => exact clear_outlineBlock hd hchildren h
    | msg key desc => exact clear_outlineBody hd hchildren h
    | call callee passesData =>
      obtain rfl := Except.ok.inj h
      exact ⟨hd.target callee hkind, trivial⟩
    | _ => cases h

theorem clear_outlineBody (hd : d.Clear names target P) : ∀ {vs : List View} {body : List Statement},
    (∀ v ∈ vs, v.IsNamed) → outlineBody d registry target vs = .ok body → BodyClear names P body
  | [], body, _, h => by
    obtain rfl := Except.ok.inj h
    trivial
  | v :: rest, body, hvs, h => by
    obtain ⟨first, hfirst, h⟩ := bind_eq_ok.mp h
    obtain ⟨more, hmore, h⟩ := bind_eq_ok.mp h
    obtain rfl := Except.ok.inj h
    exact bodyClear_append (clear_outlineNode hd (hvs v (List.mem_cons_self ..)) hfirst)
      (clear_outlineBody hd (fun w hw => hvs w (List.mem_cons_of_mem _ hw)) hmore)

theorem clear_outlineBlock (hd : d.Clear names target P) :
    ∀ {vs : List View} {body : List Statement}, (∀ v ∈ vs, v.IsNamed) →
      outlineBlock d registry target vs = .ok body → BodyClear names P body
  | [], body, _, h => by
    obtain rfl := Except.ok.inj h
    trivial
  | .node ref serial kind children :: rest, body, hvs, h => by
    have hv := hvs _ (List.mem_cons_self ..)
    have hrest : ∀ v ∈ rest, v.IsNamed := fun v hr => hvs v (List.mem_cons_of_mem _ hr)
    cases kind with
    | branch condition =>
      obtain ⟨test, htest, h⟩ := bind_eq_ok.mp h
      obtain ⟨inner, hinner, h⟩ := bind_eq_ok.mp h
      obtain ⟨later, hlater, h⟩ := bind_eq_ok.mp h
      obtain rfl := Except.ok.inj h
      have hvalue := hd.keeps.test (hd.keeps.expr (hv _ (View.self_mem_nodes _)) htest)
      exact ⟨⟨hvalue.onOneLine, clear_outlineBody hd (fun c hc => hv.child hc) hinner,
        clear_outlineLater hd hrest hlater⟩, trivial⟩
    | _ => cases h

theorem clear_outlineLater (hd : d.Clear names target P) :
    ∀ {vs : List View} {later : List LaterBranch}, (∀ v ∈ vs, v.IsNamed) →
      outlineLater d registry target vs = .ok later → LaterClear names P later
  | [], later, _, h => by
    obtain rfl := Except.ok.inj h
    trivial
  | .node ref serial kind children :: rest, later, hvs, h => by
    have hv := hvs _ (List.mem_cons_self ..)
    have hrest : ∀ v ∈ rest, v.IsNamed := fun v hr => hvs v (List.mem_cons_of_mem _ hr)
    cases kind with
    | branch condition =>
      obtain ⟨test, htest, h⟩ := bind_eq_ok.mp h
      obtain ⟨inner, hinner, h⟩ := bind_eq_ok.mp h
      obtain ⟨more, hmore, h⟩ := bind_eq_ok.mp h
      obtain rfl := Except.ok.inj h
      have hvalue := hd.keeps.test (hd.keeps.expr (hv _ (View.self_mem_nodes _)) htest)
      exact ⟨by simpa using hvalue.onOneLine,
        clear_outlineBody hd (fun c hc => hv.child hc) hinner, clear_outlineLater hd hrest hmore⟩
    | otherwise =>
      obtain ⟨inner, hinner, h⟩ := bind_eq_ok.mp h
      obtain ⟨more, hmore, h⟩ := bind_eq_ok.mp h
      obtain rfl := Except.ok.inj h
      exact ⟨by simp, clear_outlineBody hd (fun c hc => hv.child hc) hinner,
        clear_outlineLater hd hrest hmore⟩
    | _ => cases h

end

end

/-! ### The dialects -/

namespace Java

variable {package : Option String} {ns callee : String}

theorem unindented_qualifiedClass (hpackage : ∀ p ∈ package, Unindented p)
    (h : Text.isDotted ns) : Unindented (qualifiedClass package ns) := by
  have hclass := unindented_of_isDotted (isDotted_className h)
  rw [qualifiedClass]
  split
  · next p hp =>
    have hp' : Unindented p := by
      cases package with
      | none => exact unindented_of_isDotted (isDotted_of_beforeLast? h hp)
      | some q =>
        obtain rfl := Option.some.inj hp
        exact hpackage _ rfl
    exact (hp'.append (by decide)).append hclass
  · exact hclass

theorem unindented_callTarget (hpackage : ∀ p ∈ package, Unindented p)
    (h : Text.isDotted callee) : Unindented (callTarget package ns callee) := by
  have hmethod := unindented_of_isDotted (isDotted_methodName h)
  rw [callTarget]
  split
  · next calleeNs hns =>
    split
    · have hclass := unindented_qualifiedClass hpackage (isDotted_of_beforeLast? h hns)
      exact (hclass.append (by decide)).append hmethod
    · exact hmethod
  · exact hmethod

end Java

def SourceTarget.bodyNames : SourceTarget → BodyNames
  | .js => JavaScript.bodyNames
  | .java => Java.bodyNames

theorem SourceTarget.clear_bodyNames (target : SourceTarget) : target.bodyNames.Clear := by
  cases target <;> exact ⟨by decide, by decide, by decide, by decide⟩

namespace CompileOptions

/-- What a call of a template names, in a file of the namespace. -/
def callTarget (o : CompileOptions) (ns callee : String) : String :=
  match o.target with
  | .js => callee
  | .java => Java.callTarget o.package ns callee

theorem dialect_js {o : CompileOptions} (ho : o.target = .js) :
    o.dialect = JavaScript.dialect o.declaresNamespaces := by
  rw [dialect, ho]

theorem dialect_java {o : CompileOptions} (ho : o.target = .java) :
    o.dialect = Java.dialect o.package := by
  rw [dialect, ho]

theorem callTarget_js {o : CompileOptions} (ho : o.target = .js) (ns : String) :
    o.callTarget ns = fun callee => callee := by
  funext callee
  rw [callTarget, ho]

theorem callTarget_java {o : CompileOptions} (ho : o.target = .java) (ns : String) :
    o.callTarget ns = Java.callTarget o.package ns := by
  funext callee
  rw [callTarget, ho]

theorem writes (o : CompileOptions) : o.dialect.Writes o.target.bodyNames o.callTarget := by
  have hcall : ∀ (target data output : String), target ++ "(" ++ data ++ (", " ++ output ++ ");") =
      statementLine target (data ++ ", " ++ output) := fun target data output => by
    simp [statementLine, String.append_assoc]
  unfold dialect callTarget
  cases o.target with
  | js => exact ⟨fun f => rfl, fun ns callee passesData => hcall callee _ "output"⟩
  | java => exact ⟨fun f => rfl, fun ns callee passesData => hcall _ _ "sb"⟩

/-- With any property that the names called have. -/
theorem clear (o : CompileOptions) {ns : String} {P : String → Prop}
    (h : ∀ callee, Text.isDotted callee → P (o.callTarget ns callee)) :
    o.dialect.Clear o.target.bodyNames (o.callTarget ns) P := by
  refine ⟨?_, ?_, h⟩
  · unfold dialect
    cases o.target with
    | js => exact JavaScript.keeps_value _
    | java => exact Java.keeps_value _
  · cases o.target <;> decide

/-- Where calls are qualified by a package, it has no line feed and no blank in front. -/
def PackageClear (o : CompileOptions) : Prop :=
  o.target = .java → ∀ p ∈ o.package, Unindented p

theorem packageClear_of_none {o : CompileOptions} (h : o.target = .java → o.package = none) :
    o.PackageClear := by
  intro ho p hp
  rw [h ho] at hp
  cases hp

theorem PackageClear.unindented_callTarget {o : CompileOptions} (h : o.PackageClear) (ns : String)
    {callee : String} (hcallee : Text.isDotted callee) :
    Unindented (o.callTarget ns callee) := by
  unfold callTarget
  cases htarget : o.target with
  | js => exact unindented_of_isDotted hcallee
  | java => exact Java.unindented_callTarget (h htarget) hcallee

end CompileOptions

open WriterStep

section

variable {o : CompileOptions} {registry : Registry} {ns : String} {vs : List View}
  {w w' : CodeWriter} {body : List Statement}

/-- What emission adds for a body are the lines of the statements of the body. -/
theorem emitNodes_eq_ok (h : o.dialect.emitNodes registry ns w vs = .ok w') :
    ∃ body, outlineBody o.dialect registry (o.callTarget ns) vs = .ok body ∧
      w' = ⟨w.level, w.lines ++ (bodyLines o.target.bodyNames w.level body).toArray⟩ := by
  rw [emitNodes_eq o.writes] at h
  obtain ⟨body, hbody, rfl⟩ := map_eq_ok.mp h
  exact ⟨body, hbody, (traces_bodySteps o.target.bodyNames w.level body).run_eq w.lines⟩

theorem readLines?_outlineBody (hvs : ∀ v ∈ vs, v.IsNamed)
    (h : outlineBody o.dialect registry (o.callTarget ns) vs = .ok body) (level : ℕ) :
    o.target.bodyNames.readLines? level (bodyLines o.target.bodyNames level body) = some body :=
  readLines?_body o.target.clear_bodyNames level
    (clear_outlineBody (o.clear (P := fun _ => True) fun _ _ => trivial) hvs h)

theorem readText?_outlineBody (hpackage : o.PackageClear) (hvs : ∀ v ∈ vs, v.IsNamed)
    (h : outlineBody o.dialect registry (o.callTarget ns) vs = .ok body) (level : ℕ) :
    o.target.bodyNames.readText? level
      (String.join ((bodyLines o.target.bodyNames level body).map CodeLine.render)) = some body :=
  readText?_body o.target.clear_bodyNames level
    (clear_outlineBody (o.clear fun _ hcallee => hpackage.unindented_callTarget ns hcallee) hvs h)

/-- In JavaScript, and in Java without a package, the text that emission adds for a body is read
back as the statements of the body. -/
theorem readText?_emitNodes (hpackage : o.target = .java → o.package = none)
    (hvs : ∀ v ∈ vs, v.IsNamed) (h : o.dialect.emitNodes registry ns w vs = .ok w') :
    ∃ body text, outlineBody o.dialect registry (o.callTarget ns) vs = .ok body ∧
      w'.code = w.code ++ text ∧ o.target.bodyNames.readText? w.level text = some body := by
  obtain ⟨body, hbody, rfl⟩ := emitNodes_eq_ok h
  exact ⟨body, _, hbody, CodeWriter.code_append ..,
    readText?_outlineBody (CompileOptions.packageClear_of_none hpackage) hvs hbody w.level⟩

end

/-- What emission adds for a body are the lines of the statements of the body: from the lines, at
the level where they start, exactly these statements are read, and from their text as well when a
package that qualifies calls has no line feed and no blank in front. Whatever the writer, emission
leads it through the same steps, which end at the level where they start and never go back from
level zero. -/
theorem emitNodes_mirrors (o : CompileOptions) (registry : Registry) (ns : String)
    {vs : List View} (hvs : ∀ v ∈ vs, v.IsNamed) {w w' : CodeWriter}
    (h : o.dialect.emitNodes registry ns w vs = .ok w') :
    ∃ body, outlineBody o.dialect registry (o.callTarget ns) vs = .ok body ∧
      (∀ u, o.dialect.emitNodes registry ns u vs =
        .ok (run u (bodySteps o.target.bodyNames body))) ∧
      Traces w.level (bodySteps o.target.bodyNames body)
        (bodyLines o.target.bodyNames w.level body) w.level ∧
      w' = ⟨w.level, w.lines ++ (bodyLines o.target.bodyNames w.level body).toArray⟩ ∧
      o.target.bodyNames.readLines? w.level (bodyLines o.target.bodyNames w.level body) =
        some body ∧
      (o.PackageClear → ∃ text, w'.code = w.code ++ text ∧
        o.target.bodyNames.readText? w.level text = some body) := by
  obtain ⟨body, hbody, rfl⟩ := emitNodes_eq_ok h
  refine ⟨body, hbody, fun u => ?_, traces_bodySteps o.target.bodyNames w.level body, rfl,
    readLines?_outlineBody hvs hbody w.level, fun hpackage => ?_⟩
  · rw [emitNodes_eq o.writes, hbody]
    rfl
  · exact ⟨_, CodeWriter.code_append .., readText?_outlineBody hpackage hvs hbody w.level⟩

/-- A text with a line feed and a brace, and a block with a message in one branch and a call in
the other. -/
def bannerBody : List View :=
  [.node ⟨3⟩ 3 (.text "\x7d\n") [],
    .node ⟨4⟩ 4 .cond
      [.node ⟨5⟩ 5 (.branch (.not (.data ["user"])))
        [.node ⟨6⟩ 6 (.msg "hello" "") [.node ⟨7⟩ 7 (.print (.str "a\"b") [] none) []]],
      .node ⟨8⟩ 8 .otherwise [.node ⟨9⟩ 9 (.call "shop.cart.show" true) []]]]

def bannerOptions : CompileOptions := { CompileOptions.ofInput "" .java with package := "acme" }

example : (bannerOptions.dialect.emitNodes .full "app" ⟨1, #[]⟩ bannerBody).toOption.map
      CodeWriter.code =
    some (String.join
      ["  sb.append(\"\x7d\\n\");\n",
        "  if (StencilUtils.$$coerceToBoolean(!StencilUtils.$$coerceToBoolean(",
        "StencilUtils.$$getData(data, \"user\")))) \x7b\n",
        "    sb.append(StencilUtils.$$coerceToString(\"a\\\"b\"));\n",
        "  \x7d else \x7b\n",
        "    acme.CartTemplates.show(data, sb);\n",
        "  \x7d\n"]) := by
  decide +kernel

theorem emitNodes_mirrors_banner :
    bannerOptions.PackageClear ∧ (∀ v ∈ bannerBody, v.IsNamed) ∧
    ∃ w', bannerOptions.dialect.emitNodes .full "app" ⟨1, #[]⟩ bannerBody = .ok w' ∧
      ∃ body, outlineBody bannerOptions.dialect .full (bannerOptions.callTarget "app") bannerBody =
          .ok body ∧
        (∀ u, bannerOptions.dialect.emitNodes .full "app" u bannerBody =
          .ok (run u (bodySteps bannerOptions.target.bodyNames body))) ∧
        Traces 1 (bodySteps bannerOptions.target.bodyNames body)
          (bodyLines bannerOptions.target.bodyNames 1 body) 1 ∧
        w' = ⟨1, #[] ++ (bodyLines bannerOptions.target.bodyNames 1 body).toArray⟩ ∧
        bannerOptions.target.bodyNames.readLines? 1
          (bodyLines bannerOptions.target.bodyNames 1 body) = some body ∧
        ∃ text, w'.code = (⟨1, #[]⟩ : CodeWriter).code ++ text ∧
          bannerOptions.target.bodyNames.readText? 1 text = some body := by
  have hpackage : bannerOptions.PackageClear := fun _ => by decide
  have hnamed : ∀ v ∈ bannerBody, v.IsNamed := by
    unfold View.IsNamed
    decide
  refine ⟨hpackage, hnamed, ?_⟩
  cases h : bannerOptions.dialect.emitNodes .full "app" ⟨1, #[]⟩ bannerBody with
  | error e =>
    have hok : (bannerOptions.dialect.emitNodes .full "app" ⟨1, #[]⟩ bannerBody).isOk := by
      decide +kernel
    rw [h] at hok
    cases hok
  | ok w' =>
    obtain ⟨body, hbody, hemit, htraces, hw', hlines, htext⟩ :=
      emitNodes_mirrors bannerOptions .full "app" hnamed h
    exact ⟨w', rfl, body, hbody, hemit, htraces, hw', hlines, htext hpackage⟩

end TemplateLang
