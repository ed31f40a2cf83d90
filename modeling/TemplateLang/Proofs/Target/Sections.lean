import TemplateLang.Compile
import TemplateLang.Proofs.Target.Outline

/-! Sections of generated code. The unit of a file is the first lines of the file, then a section
for each template in effect, in order of the source, and then the last lines. The lines of a section
are the head of its template, one level deeper the statements of the body, between the lines that
the dialect has around every body, and the end. -/

namespace TemplateLang

variable {d : Dialect} {names : BodyNames} {target : String → String → String}
  {registry : Registry} {ns name text : String} {level : ℕ} {v : View} {vs : List View}
  {w w' : CodeWriter} {body : List Statement}

/-! ### Writers -/

namespace CodeWriter

@[simp] theorem code_line (w : CodeWriter) (content : String) :
    (w.line content).code = w.code ++ (CodeLine.text w.level content).render := by
  simp [code, line]

@[simp] theorem code_dedent (w : CodeWriter) : w.dedent.code = w.code := rfl

@[simp] theorem code_nil (level : ℕ) : (⟨level, #[]⟩ : CodeWriter).code = "" := by simp [code]

@[simp] theorem code_append (w : CodeWriter) (level : ℕ) (lines : List CodeLine) :
    (⟨level, w.lines ++ lines.toArray⟩ : CodeWriter).code =
      w.code ++ String.join (lines.map CodeLine.render) := by
  simp [code]

theorem foldl_line (w : CodeWriter) (contents : List String) :
    contents.foldl CodeWriter.line w =
      ⟨w.level, w.lines ++ (contents.map (CodeLine.text w.level)).toArray⟩ := by
  induction contents generalizing w with
  | nil => simp
  | cons content contents ih =>
    rw [List.foldl_cons, ih]
    simp [CodeWriter.line]

end CodeWriter

/-! ### Templates -/

namespace Dialect

/-- The lines of a template with the statements of its body. -/
def templateLines (d : Dialect) (names : BodyNames) (level : ℕ) (name : String)
    (body : List Statement) : List CodeLine :=
  .blank :: .text level (d.templateHead name) ::
    (d.prologue.map (CodeLine.text (level + 1)) ++ bodyLines names (level + 1) body ++
      d.epilogue.map (CodeLine.text (level + 1)) ++ [.text level d.templateEnd])

/-- Emission of a template adds its lines, with the statements that the nodes of its body
outline. -/
theorem emitTemplate_eq (hd : d.Writes names target) (registry : Registry) (ns name : String)
    (vs : List View) (w : CodeWriter) :
    d.emitTemplate registry ns name vs w =
      (outlineBody d registry (target ns) vs).map fun body =>
        ⟨w.level, w.lines ++ (d.templateLines names w.level name body).toArray⟩ := by
  rw [emitTemplate]
  simp only [CodeWriter.foldl_line, emitNodes_eq hd]
  cases outlineBody d registry (target ns) vs with
  | error e => rfl
  | ok body =>
    have hrun := (traces_bodySteps names (w.level + 1) body).run_eq
    simp only [Except.map, ok_bind, CodeWriter.blank, CodeWriter.line, CodeWriter.indent,
      CodeWriter.dedent, hrun]
    simp [templateLines, pure, Except.pure]

/-- The code of a template by itself, in a file of the namespace `ns` and at the level `level`. -/
def templateCode (d : Dialect) (registry : Registry) (ns : String) (level : ℕ) (v : View) :
    Except CompileError String :=
  match v.kind with
  | .template name _ _ =>
    (d.emitTemplate registry ns name v.children ⟨level, #[]⟩).map CodeWriter.code
  | kind => .error (.codeGeneration v.serial (.expectedTemplate kind.label))

theorem templateCode_eq_ok (hd : d.Writes names target) :
    d.templateCode registry ns level v = .ok text ↔
      ∃ name body, (∃ isOverride autoescape, v.kind = .template name isOverride autoescape) ∧
        outlineBody d registry (target ns) v.children = .ok body ∧
        text = String.join ((d.templateLines names level name body).map CodeLine.render) := by
  rw [templateCode]
  cases hk : v.kind with
  | template name isOverride autoescape =>
    simp only [emitTemplate_eq hd]
    cases outlineBody d registry (target ns) v.children with
    | error e => simp [Except.map]
    | ok body => simp [Except.map, CodeWriter.code, eq_comm]
  | _ => simp

/-- Behind what is written already stand the templates in effect, one after the other. -/
theorem emitTemplates_eq_ok (hd : d.Writes names target) {inEffect : View → Bool}
    (h : d.emitTemplates registry ns inEffect w vs = .ok w') :
    w'.level = w.level ∧ ∃ texts,
      List.Forall₂ (fun v text => d.templateCode registry ns w.level v = .ok text)
        (vs.filter inEffect) texts ∧ w'.code = w.code ++ String.join texts := by
  induction vs generalizing w with
  | nil =>
    obtain rfl : w = w' := Except.ok.inj h
    exact ⟨rfl, [], .nil, by simp⟩
  | cons v vs ih =>
    rw [emitTemplates] at h
    cases hk : v.kind with
    | template name isOverride autoescape =>
      cases hin : inEffect v with
      | true =>
        simp only [hk, hin, if_true, emitTemplate_eq hd] at h
        obtain ⟨w₁, hw₁, hrest⟩ := bind_eq_ok.mp h
        obtain ⟨body, hbody, rfl⟩ := map_eq_ok.mp hw₁
        obtain ⟨hlevel, texts, htexts, hcode⟩ := ih hrest
        rw [CodeWriter.code_append, String.append_assoc, ← String.join_cons] at hcode
        refine ⟨hlevel, _ :: texts, ?_, hcode⟩
        rw [List.filter_cons, hin]
        exact .cons ((templateCode_eq_ok hd).mpr ⟨name, body, ⟨_, _, hk⟩, hbody, rfl⟩) htexts
      | false =>
        simp only [hk, hin, Bool.false_eq_true, if_false, ok_bind] at h
        obtain ⟨hlevel, texts, htexts, hcode⟩ := ih h
        exact ⟨hlevel, texts, by rwa [List.filter_cons, hin], hcode⟩
    | _ =>
      simp only [hk] at h
      cases h

/-! ### Files -/

/-- What is written before the templates of a file. -/
def fileHead (d : Dialect) (path ns : String) : CodeWriter := d.openFile ns (header path)

/-- The code behind the templates of a file. -/
def fileEnd (d : Dialect) (path ns : String) : String :=
  (d.closeFile ⟨(d.fileHead path ns).level, #[]⟩).code

/-- The last lines of a file are added to the others. -/
def AppendsEnd (d : Dialect) : Prop :=
  ∀ w : CodeWriter, (d.closeFile w).code = w.code ++ (d.closeFile ⟨w.level, #[]⟩).code

theorem emitFile_eq_ok (hd : d.Writes names target) (hend : d.AppendsEnd)
    {inEffect : View → Bool} {path : String} {unit : OutputUnit} (hk : v.kind = .file path ns)
    (h : d.emitFile registry inEffect v = .ok unit) :
    unit.sourcePath = path ∧ unit.fileName = d.fileName path ns ∧ ∃ texts,
      List.Forall₂
        (fun c text => d.templateCode registry ns (d.fileHead path ns).level c = .ok text)
        (v.children.filter inEffect) texts ∧
      unit.code = (d.fileHead path ns).code ++ String.join texts ++ d.fileEnd path ns := by
  rw [emitFile, hk] at h
  obtain ⟨w, hw, hunit⟩ := bind_eq_ok.mp h
  obtain rfl := Except.ok.inj hunit
  obtain ⟨hlevel, texts, htexts, hcode⟩ := emitTemplates_eq_ok hd hw
  refine ⟨rfl, rfl, texts, htexts, ?_⟩
  rw [hend w, hcode, hlevel]
  rfl

end Dialect

theorem CompileOptions.appendsEnd (o : CompileOptions) : o.dialect.AppendsEnd := by
  intro w
  rw [dialect]
  cases o.target with
  | js =>
    change w.code = w.code ++ (⟨w.level, #[]⟩ : CodeWriter).code
    rw [CodeWriter.code_nil, String.append_empty]
  | java =>
    change (w.dedent.line "\x7d").code =
      w.code ++ ((⟨w.level, #[]⟩ : CodeWriter).dedent.line "\x7d").code
    rw [CodeWriter.code_line, CodeWriter.code_line, CodeWriter.code_dedent, CodeWriter.code_dedent,
      CodeWriter.code_nil, String.empty_append]
    rfl

end TemplateLang
