import TemplateLang.Proofs.Target.Statement
import TemplateLang.Proofs.Text.Identifier
import TemplateLang.Proofs.Text.Segments

/-! Reading the body of a generated template from its lines and from its text. Each line has two
spaces for every block around it; lines that open, continue and close a block are told apart by
their braces and all others are statements, of which those that end with the arguments of a
template are calls. From the lines of statements of which no other ends so, exactly these
statements are read, and from their text when no part of it ends or indents a line. -/

namespace TemplateLang

variable {names : BodyNames} {level : ℕ} {s t opening closing content : String}

/-! ### Lines -/

/-- What stands in `s` between the two texts at its ends. -/
def between? (opening closing s : String) : Option String :=
  let inner := String.ofList
    ((s.toList.drop opening.length).take (s.length - opening.length - closing.length))
  if s = opening ++ inner ++ closing then some inner else none

theorem between?_eq_some : between? opening closing s = some t ↔ s = opening ++ t ++ closing := by
  unfold between?
  dsimp only
  constructor
  · intro h
    split at h
    · next heq =>
      rw [Option.some.inj h] at heq
      exact heq
    · cases h
  · rintro rfl
    have hinner : String.ofList (((opening ++ t ++ closing).toList.drop opening.length).take
        ((opening ++ t ++ closing).length - opening.length - closing.length)) = t := by
      rw [← String.toList_inj, String.toList_ofList, String.toList_append, String.toList_append,
        List.append_assoc, List.drop_left' String.length_toList, String.length_append,
        String.length_append, List.take_left']
      rw [String.length_toList]
      omega
    rw [hinner, if_pos rfl]

/-- What a line of a body says. -/
inductive BodyLine where
  | statement (s : Statement)
  | opens (test : String)
  | later (test : Option String)
  | closes

namespace BodyNames

/-- The statement on a line. -/
def statement? (names : BodyNames) (content : String) : Option Statement :=
  match between? "" (names.callEnd true) content with
  | some target => some (.call target true)
  | none => match between? "" (names.callEnd false) content with
    | some target => some (.call target false)
    | none => (between? (names.append ++ "(") ");" content).map .append

def bodyLine? (names : BodyNames) (content : String) : Option BodyLine :=
  if content = closeLine then some .closes
  else if content = laterLine none then some (.later none)
  else match between? "\x7d else if (" ") \x7b" content with
    | some test => some (.later (some test))
    | none => match between? "if (" ") \x7b" content with
      | some test => some (.opens test)
      | none => (names.statement? content).map .statement

/-- The line does not end like a call. -/
def NotCall (names : BodyNames) (content : String) : Prop :=
  ∀ passesData, ¬ (names.callEnd passesData).toList <:+ content.toList

theorem between?_callEnd_eq_none {passesData : Bool}
    (h : ¬ (names.callEnd passesData).toList <:+ content.toList) :
    between? "" (names.callEnd passesData) content = none := by
  refine Option.eq_none_iff_forall_not_mem.mpr fun target htarget => h ⟨target.toList, ?_⟩
  rw [between?_eq_some.mp htarget]
  simp

theorem statement?_append {value : String}
    (h : names.NotCall (statementLine names.append value)) :
    names.statement? (statementLine names.append value) = some (.append value) := by
  rw [statement?, between?_callEnd_eq_none (h true), between?_callEnd_eq_none (h false),
    between?_eq_some.mpr (show statementLine names.append value = _ from rfl), Option.map_some]

/-- The two ends of calls are different ones, whatever is called. -/
theorem statement?_call (h : ¬ (names.callEnd true).toList <:+ (names.callEnd false).toList)
    (h' : ¬ (names.callEnd false).toList <:+ (names.callEnd true).toList) (target : String)
    (passesData : Bool) :
    names.statement? (statementLine target (names.arguments passesData)) =
      some (.call target passesData) := by
  have hline : ∀ passesData, statementLine target (names.arguments passesData) =
      "" ++ target ++ names.callEnd passesData := fun passesData => by
    simp [statementLine, callEnd, String.append_assoc]
  cases passesData with
  | true => rw [statement?, between?_eq_some.mpr (hline true)]
  | false =>
    have hend : (names.callEnd false).toList <:+
        (statementLine target (names.arguments false)).toList :=
      ⟨target.toList, by rw [hline false]; simp⟩
    have hnone : ¬ (names.callEnd true).toList <:+
        (statementLine target (names.arguments false)).toList := fun hend' =>
      (List.suffix_or_suffix_of_suffix hend' hend).elim h h'
    rw [statement?, between?_callEnd_eq_none hnone, between?_eq_some.mpr (hline false)]

theorem bodyLine?_close : names.bodyLine? closeLine = some .closes := if_pos rfl

/-- A line with another first character. -/
theorem ne_of_head? (h : s.toList.head? ≠ t.toList.head?) : s ≠ t := by
  rintro rfl
  exact h rfl

theorem ne_of_getLast? (h : s.toList.getLast? ≠ t.toList.getLast?) : s ≠ t := by
  rintro rfl
  exact h rfl

theorem getLast?_append (h : t.toList ≠ []) : (s ++ t).toList.getLast? = t.toList.getLast? := by
  rw [String.toList_append, List.getLast?_append_of_ne_nil _ h]

theorem getLast?_statementLine (function arguments : String) :
    (statementLine function arguments).toList.getLast? = some ';' :=
  getLast?_append (by decide)

theorem getLast?_laterLine (test : Option String) :
    (laterLine test).toList.getLast? = some '\x7b' := by
  cases test with
  | none => rfl
  | some test => exact getLast?_append (by decide)

theorem bodyLine?_later (test : Option String) :
    names.bodyLine? (laterLine test) = some (.later test) := by
  unfold bodyLine?
  rw [if_neg (ne_of_getLast? (by rw [getLast?_laterLine]; decide))]
  cases test with
  | none => exact if_pos rfl
  | some test =>
    have hne : laterLine (some test) ≠ laterLine none := by
      intro heq
      have hchars := congrArg String.toList heq
      simp [laterLine] at hchars
    rw [if_neg hne, between?_eq_some.mpr (show laterLine (some test) = _ from rfl)]

theorem bodyLine?_open (test : String) : names.bodyLine? (openLine test) = some (.opens test) := by
  have hlater : between? "\x7d else if (" ") \x7b" (openLine test) = none := by
    refine Option.eq_none_iff_forall_not_mem.mpr fun x hx => ?_
    exact ne_of_head? (by simp [openLine]) (between?_eq_some.mp hx)
  unfold bodyLine?
  rw [if_neg (ne_of_head? (by simp [openLine, closeLine])),
    if_neg (ne_of_head? (by simp [openLine, laterLine])), hlater,
    between?_eq_some.mpr (show openLine test = _ from rfl)]

theorem bodyLine?_statementLine (function arguments : String) :
    names.bodyLine? (statementLine function arguments) =
      (names.statement? (statementLine function arguments)).map .statement := by
  -- a statement ends with a semicolon and the lines of blocks with a brace
  have hbetween : ∀ opening, between? opening ") \x7b" (statementLine function arguments) = none :=
    fun opening => Option.eq_none_iff_forall_not_mem.mpr fun x hx =>
      ne_of_getLast? (by rw [getLast?_statementLine, getLast?_append (by decide)]; decide)
        (between?_eq_some.mp hx)
  unfold bodyLine?
  rw [if_neg (ne_of_getLast? (by rw [getLast?_statementLine]; decide)),
    if_neg (ne_of_getLast? (by rw [getLast?_statementLine]; decide)), hbetween, hbetween]

end BodyNames

/-! ### Reading lines -/

/-- A block that is not closed: what stands before it, its first test, and of the branches that
are complete the first and the others, with the test of the open one. -/
inductive OpenBlock where
  | first (before : List Statement) (test : String)
  | later (before : List Statement) (test : String) (body : List Statement)
      (complete : List LaterBranch) (openTest : Option String)

namespace OpenBlock

/-- Goes on with another branch, the open one having the given body. -/
def next : OpenBlock → List Statement → Option String → OpenBlock
  | .first before test, body, nextTest => .later before test body [] nextTest
  | .later before test inner complete openTest, body, nextTest =>
    .later before test inner (complete ++ [.mk openTest body]) nextTest

/-- The statements up to the block, with the given body in its last branch. -/
def close : OpenBlock → List Statement → List Statement
  | .first before test, body => before ++ [.block test body []]
  | .later before test inner complete openTest, body =>
    before ++ [.block test inner (complete ++ [.mk openTest body])]

/-- The statements up to the block, when the open branch and then others follow. -/
def closeWith : OpenBlock → List Statement → List LaterBranch → List Statement
  | b, body, [] => b.close body
  | b, body, .mk test more :: rest => (b.next body test).closeWith more rest

theorem closeWith_later (before : List Statement) (test : String) (inner : List Statement)
    (complete : List LaterBranch) (openTest : Option String) (body : List Statement)
    (rest : List LaterBranch) :
    (OpenBlock.later before test inner complete openTest).closeWith body rest =
      before ++ [.block test inner (complete ++ .mk openTest body :: rest)] := by
  induction rest generalizing complete openTest body with
  | nil => rfl
  | cons branch rest ih =>
    obtain ⟨nextTest, more⟩ := branch
    rw [closeWith, next, ih, List.append_assoc, List.singleton_append]

theorem closeWith_first (before : List Statement) (test : String) (body : List Statement)
    (rest : List LaterBranch) :
    (OpenBlock.first before test).closeWith body rest = before ++ [.block test body rest] := by
  cases rest with
  | nil => rfl
  | cons branch rest =>
    obtain ⟨nextTest, more⟩ := branch
    rw [closeWith, next, closeWith_later, List.nil_append]

end OpenBlock

/-- What is read: the level of the lines that follow, the blocks that are open, the inner ones
first, and the statements so far in the innermost of them. -/
structure Reading where
  level : ℕ
  blocks : List OpenBlock
  body : List Statement

/-- Reads what a line at level `a` says. -/
def BodyLine.step (r : Reading) (a : ℕ) : BodyLine → Option Reading
  | .statement s => if a = r.level then some ⟨a, r.blocks, r.body ++ [s]⟩ else none
  | .opens test => if a = r.level then some ⟨a + 1, .first r.body test :: r.blocks, []⟩ else none
  | .later test =>
    match r.blocks with
    | [] => none
    | b :: blocks =>
      if a + 1 = r.level then some ⟨a + 1, b.next r.body test :: blocks, []⟩ else none
  | .closes =>
    match r.blocks with
    | [] => none
    | b :: blocks => if a + 1 = r.level then some ⟨a, blocks, b.close r.body⟩ else none

namespace BodyNames

/-- Reads lines to the end, where no block is open. -/
def read (names : BodyNames) (r : Reading) : List CodeLine → Option (List Statement)
  | [] => if r.blocks.isEmpty then some r.body else none
  | .blank :: _ => none
  | .text a content :: rest =>
    (names.bodyLine? content).bind fun line =>
      (line.step r a).bind fun next => read names next rest

theorem read_text {a : ℕ} {line : BodyLine} {r next : Reading} {rest : List CodeLine}
    (hline : names.bodyLine? content = some line) (hstep : line.step r a = some next) :
    names.read r (.text a content :: rest) = names.read next rest := by
  rw [read, hline, Option.bind_some, hstep, Option.bind_some]

end BodyNames

/-- A text on one line. -/
def OnOneLine (s : String) : Prop := '\n' ∉ s.toList

instance (s : String) : Decidable (OnOneLine s) := inferInstanceAs (Decidable ('\n' ∉ s.toList))

/-- A text on one line that does not begin with a blank. -/
def Unindented (s : String) : Prop := OnOneLine s ∧ s.toList.head? ≠ some ' '

instance (s : String) : Decidable (Unindented s) :=
  inferInstanceAs (Decidable (OnOneLine s ∧ s.toList.head? ≠ some ' '))

section

variable (names : BodyNames) (P : String → Prop)

mutual

/-- The values and tests of the statement do not disturb its lines, and what it calls has the
property. -/
def Statement.Clear : Statement → Prop
  | .append value => OnOneLine value ∧ names.NotCall (statementLine names.append value)
  | .call target _ => P target
  | .block test body later => OnOneLine test ∧ BodyClear body ∧ LaterClear later

def BodyClear : List Statement → Prop
  | [] => True
  | s :: rest => Statement.Clear s ∧ BodyClear rest

def LaterClear : List LaterBranch → Prop
  | [] => True
  | .mk test body :: rest => (∀ text ∈ test, OnOneLine text) ∧ BodyClear body ∧ LaterClear rest

end

end

/-- The names are such that statements can be told apart. -/
structure BodyNames.Clear (names : BodyNames) : Prop where
  append_unindented : Unindented names.append
  arguments_onOneLine : ∀ passesData, OnOneLine (names.arguments passesData)
  true_not_false : ¬ (names.callEnd true).toList <:+ (names.callEnd false).toList
  false_not_true : ¬ (names.callEnd false).toList <:+ (names.callEnd true).toList

variable {P : String → Prop}

open BodyNames

theorem read_statementLine {function arguments : String} {s : Statement} (blocks : List OpenBlock)
    (body : List Statement) (rest : List CodeLine)
    (hs : names.statement? (statementLine function arguments) = some s) :
    names.read ⟨level, blocks, body⟩ (.text level (statementLine function arguments) :: rest) =
      names.read ⟨level, blocks, body ++ [s]⟩ rest := by
  have hline : names.bodyLine? (statementLine function arguments) = some (.statement s) := by
    rw [bodyLine?_statementLine, hs, Option.map_some]
  exact read_text hline (if_pos rfl)

mutual

theorem Statement.read_lines (hn : names.Clear) (level : ℕ) (blocks : List OpenBlock)
    (body : List Statement) (rest : List CodeLine) : ∀ {s : Statement}, s.Clear names P →
    names.read ⟨level, blocks, body⟩ (s.lines names level ++ rest) =
      names.read ⟨level, blocks, body ++ [s]⟩ rest
  | .append value, h => read_statementLine blocks body rest (statement?_append h.2)
  | .call target passesData, _ => read_statementLine blocks body rest
      (statement?_call hn.true_not_false hn.false_not_true target passesData)
  | .block test inner later, h => by
    simp only [Statement.lines, List.cons_append, List.append_assoc, List.nil_append]
    rw [read_text (bodyLine?_open test) (if_pos rfl),
      read_bodyLines hn (level + 1) _ [] _ h.2.1, List.nil_append,
      read_laterLines hn level _ _ blocks rest h.2.2, OpenBlock.closeWith_first]

theorem read_bodyLines (hn : names.Clear) (level : ℕ) (blocks : List OpenBlock)
    (body : List Statement) (rest : List CodeLine) : ∀ {more : List Statement},
    BodyClear names P more →
    names.read ⟨level, blocks, body⟩ (bodyLines names level more ++ rest) =
      names.read ⟨level, blocks, body ++ more⟩ rest
  | [], _ => by rw [bodyLines, List.nil_append, List.append_nil]
  | s :: more, h => by
    rw [bodyLines, List.append_assoc, Statement.read_lines hn level blocks body _ h.1,
      read_bodyLines hn level blocks _ rest h.2, List.append_assoc, List.singleton_append]

/-- The branches behind the first one, up to the end of the block. -/
theorem read_laterLines (hn : names.Clear) (level : ℕ) (b : OpenBlock) (body : List Statement)
    (blocks : List OpenBlock) (rest : List CodeLine) : ∀ {later : List LaterBranch},
    LaterClear names P later →
    names.read ⟨level + 1, b :: blocks, body⟩
        (laterLines names level later ++ .text level closeLine :: rest) =
      names.read ⟨level, blocks, b.closeWith body later⟩ rest
  | [], _ => read_text bodyLine?_close (if_pos rfl)
  | .mk test more :: later, h => by
    simp only [laterLines, List.cons_append, List.append_assoc]
    have hstep : (BodyLine.later test).step ⟨level + 1, b :: blocks, body⟩ level =
        some ⟨level + 1, b.next body test :: blocks, []⟩ := if_pos rfl
    rw [read_text (bodyLine?_later test) hstep, read_bodyLines hn (level + 1) _ [] _ h.2.1,
      List.nil_append, read_laterLines hn level _ more blocks rest h.2.2, OpenBlock.closeWith]

end

/-- Reads lines as statements, from the given level on. -/
def BodyNames.readLines? (names : BodyNames) (level : ℕ) (lines : List CodeLine) :
    Option (List Statement) := names.read ⟨level, [], []⟩ lines

/-- From the lines of a body, at any level, the statements of the body are read. -/
theorem readLines?_body (hn : names.Clear) (level : ℕ) {body : List Statement}
    (h : BodyClear names P body) :
    names.readLines? level (bodyLines names level body) = some body := by
  have hread := read_bodyLines hn level [] [] [] h
  rw [List.append_nil, List.nil_append] at hread
  rw [BodyNames.readLines?, hread]
  rfl

/-! ### Text -/

/-- The line that a text without line feeds is. -/
def lineOf? (line : List Char) : Option CodeLine :=
  let spaces := (line.takeWhile (· = ' ')).length
  if line = [] then some .blank
  else if spaces % 2 = 0 then
    some (.text (spaces / 2) (String.ofList (line.dropWhile (· = ' '))))
  else none

/-- The lines of a text that is divided at its line feeds, of which the last ends the text. -/
def linesOf? : List (List Char) → Option (List CodeLine)
  | [] => none
  | [last] => if last = [] then some [] else none
  | line :: rest => (lineOf? line).bind fun l => (linesOf? rest).map (l :: ·)

/-- Reads a text as statements, from the given level on. -/
def BodyNames.readText? (names : BodyNames) (level : ℕ) (text : String) :
    Option (List Statement) :=
  (linesOf? (Text.splitChars '\n' text.toList)).bind (names.readLines? level)

/-- A line whose content is on one line and does not begin with a blank. -/
def CodeLine.Plain : CodeLine → Prop
  | .blank => False
  | .text _ content => OnOneLine content ∧ ∃ c cs, content.toList = c :: cs ∧ c ≠ ' '

theorem linesOf?_cons {line : List Char} {rest : List (List Char)} (h : rest ≠ []) :
    linesOf? (line :: rest) = (lineOf? line).bind fun l => (linesOf? rest).map (l :: ·) := by
  obtain ⟨next, more, rfl⟩ := List.exists_cons_of_ne_nil h
  rfl

theorem toList_render (a : ℕ) (content : String) :
    (CodeLine.text a content).render.toList =
      List.replicate (2 * a) ' ' ++ content.toList ++ ['\n'] := by
  have hspaces : (String.join (List.replicate a "  ")).toList = List.replicate (2 * a) ' ' := by
    induction a with
    | zero => rfl
    | succ a ih =>
      rw [List.replicate_succ, String.join_cons, String.toList_append, ih,
        show 2 * (a + 1) = 2 + 2 * a by omega, List.replicate_add]
      rfl
  rw [CodeLine.render, String.toList_append, String.toList_append, hspaces]
  rfl

/-- Two spaces a level, and the content behind them. -/
theorem lineOf?_indented (a : ℕ) (h : (CodeLine.text a content).Plain) :
    lineOf? (List.replicate (2 * a) ' ' ++ content.toList) = some (.text a content) := by
  obtain ⟨-, c, cs, hcontent, hc⟩ := h
  have hne : List.replicate (2 * a) ' ' ++ content.toList ≠ [] := by simp [hcontent]
  have hsplit : (List.replicate (2 * a) ' ' ++ content.toList).takeWhile (· = ' ') =
        List.replicate (2 * a) ' ' ∧
      (List.replicate (2 * a) ' ' ++ content.toList).dropWhile (· = ' ') = content.toList := by
    rw [hcontent, List.takeWhile_append_of_pos (by simp), List.dropWhile_append_of_pos (by simp),
      List.takeWhile_cons_of_neg (by simpa using hc),
      List.dropWhile_cons_of_neg (by simpa using hc), List.append_nil]
    exact ⟨rfl, rfl⟩
  unfold lineOf?
  rw [hsplit.1, hsplit.2, List.length_replicate, if_neg hne, if_pos (by omega),
    String.ofList_toList, Nat.mul_div_cancel_left a (by decide)]

theorem linesOf?_render {lines : List CodeLine} (h : ∀ line ∈ lines, line.Plain) :
    linesOf? (Text.splitChars '\n' (String.join (lines.map CodeLine.render)).toList) =
      some lines := by
  induction lines with
  | nil => rfl
  | cons line lines ih =>
    have hplain := h line (List.mem_cons_self ..)
    obtain _ | ⟨a, content⟩ := line
    · cases hplain
    have hrest := ih fun line hl => h line (List.mem_cons_of_mem _ hl)
    have hnl : '\n' ∉ List.replicate (2 * a) ' ' ++ content.toList := by
      simpa using show ¬ '\n' ∈ content.toList from hplain.1
    rw [List.map_cons, String.join_cons, String.toList_append, toList_render,
      List.append_assoc _ ['\n'], List.singleton_append, Text.splitChars_append hnl,
      linesOf?_cons (Text.splitChars_ne_nil _ _), lineOf?_indented a hplain, hrest]
    rfl

theorem onOneLine_append : OnOneLine (s ++ t) ↔ OnOneLine s ∧ OnOneLine t := by
  simp [OnOneLine, not_or]

theorem onOneLine_of_isDotted (h : Text.isDotted s) : OnOneLine s := fun hc => by
  cases Text.isNameChar_of_mem h hc

theorem unindented_of_isDotted (h : Text.isDotted s) : Unindented s := by
  refine ⟨onOneLine_of_isDotted h, fun hhead => ?_⟩
  cases Text.isNameChar_of_mem h (List.mem_of_mem_head? hhead)

theorem Unindented.append (hs : Unindented s) (ht : Unindented t) : Unindented (s ++ t) := by
  refine ⟨onOneLine_append.mpr ⟨hs.1, ht.1⟩, ?_⟩
  rw [String.toList_append]
  have hhead := hs.2
  cases hcs : s.toList with
  | nil => exact ht.2
  | cons c cs =>
    rw [hcs] at hhead
    exact hhead

theorem plain_statementLine {function arguments : String} (hf : Unindented function)
    (ha : OnOneLine arguments) :
    (CodeLine.text level (statementLine function arguments)).Plain := by
  constructor
  · simp only [statementLine, onOneLine_append]
    exact ⟨⟨⟨hf.1, by decide⟩, ha⟩, by decide⟩
  · have hhead := hf.2
    cases hcs : function.toList with
    | nil => exact ⟨'(', _, by simp [statementLine, hcs]; rfl, by decide⟩
    | cons c cs =>
      refine ⟨c, _, by simp [statementLine, hcs]; rfl, ?_⟩
      rintro rfl
      rw [hcs] at hhead
      exact hhead rfl

theorem plain_openLine {test : String} (h : OnOneLine test) :
    (CodeLine.text level (openLine test)).Plain := by
  refine ⟨?_, 'i', _, by simp [openLine]; rfl, by decide⟩
  simpa [openLine, OnOneLine] using h

theorem plain_laterLine {test : Option String} (h : ∀ text ∈ test, OnOneLine text) :
    (CodeLine.text level (laterLine test)).Plain := by
  cases test with
  | none => exact ⟨by simp [laterLine, OnOneLine], '\x7d', _, by simp [laterLine]; rfl, by decide⟩
  | some test =>
    refine ⟨?_, '\x7d', _, by simp [laterLine]; rfl, by decide⟩
    simpa [laterLine, OnOneLine] using h test rfl

theorem plain_closeLine : (CodeLine.text level closeLine).Plain :=
  ⟨by simp [closeLine, OnOneLine], '\x7d', [], rfl, by decide⟩

mutual

theorem Statement.plain_lines (hn : names.Clear) (level : ℕ) : ∀ {s : Statement},
    s.Clear names Unindented → ∀ line ∈ s.lines names level, line.Plain
  | .append value, h => by
    simpa [Statement.lines] using plain_statementLine hn.append_unindented h.1
  | .call target passesData, h => by
    simpa [Statement.lines] using plain_statementLine h (hn.arguments_onOneLine passesData)
  | .block test body later, h => by
    simp only [Statement.lines, List.cons_append, List.mem_cons, List.mem_append,
      List.not_mem_nil, or_false]
    rintro line (rfl | (hl | hl) | rfl)
    · exact plain_openLine h.1
    · exact plain_bodyLines hn (level + 1) h.2.1 line hl
    · exact plain_laterLines hn level h.2.2 line hl
    · exact plain_closeLine

theorem plain_bodyLines (hn : names.Clear) (level : ℕ) : ∀ {body : List Statement},
    BodyClear names Unindented body → ∀ line ∈ bodyLines names level body, line.Plain
  | [], _ => by simp [bodyLines]
  | s :: body, h => by
    simp only [bodyLines, List.mem_append]
    rintro line (hl | hl)
    · exact Statement.plain_lines hn level h.1 line hl
    · exact plain_bodyLines hn level h.2 line hl

theorem plain_laterLines (hn : names.Clear) (level : ℕ) : ∀ {later : List LaterBranch},
    LaterClear names Unindented later → ∀ line ∈ laterLines names level later, line.Plain
  | [], _ => by simp [laterLines]
  | .mk test body :: later, h => by
    simp only [laterLines, List.cons_append, List.mem_cons, List.mem_append]
    rintro line (rfl | hl | hl)
    · exact plain_laterLine h.1
    · exact plain_bodyLines hn (level + 1) h.2.1 line hl
    · exact plain_laterLines hn level h.2.2 line hl

end

/-- From the text of a body, at any level, the statements of the body are read. -/
theorem readText?_body (hn : names.Clear) (level : ℕ) {body : List Statement}
    (h : BodyClear names Unindented body) :
    names.readText? level (String.join ((bodyLines names level body).map CodeLine.render)) =
      some body := by
  rw [BodyNames.readText?, linesOf?_render (plain_bodyLines hn level h), Option.bind_some,
    readLines?_body hn level h]

end TemplateLang
