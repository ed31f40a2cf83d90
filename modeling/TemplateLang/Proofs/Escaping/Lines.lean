import TemplateLang.Proofs.Escaping.References
import TemplateLang.Text.Segments

/-! Lines of texts. A text is divided at its line breaks, a carriage return and the line feed behind
it being one; with tags in place of the breaks its lines are what is left. Escaping for HTML
changes no line break, so it may be done in each line. -/

namespace TemplateLang.Escaping

variable {c : Char} {s t u : List Char}

/-! ### Division into lines -/

def isBreak (c : Char) : Bool := c = '\r' || c = '\n'

/-- The lines of a text, from one line break to the next. -/
def splitLines : List Char → List (List Char)
  | [] => [[]]
  | '\r' :: '\n' :: rest => [] :: splitLines rest
  | c :: rest => if isBreak c then [] :: splitLines rest else (splitLines rest).modifyHead (c :: ·)

theorem splitLines_ne_nil (s : List Char) : splitLines s ≠ [] := by
  fun_induction splitLines s with
  | case1 => simp
  | case2 => simp
  | case3 => simp
  | case4 c rest _ _ ih => simpa using ih

/-- The lines have all characters but the breaks. -/
theorem flatten_splitLines (s : List Char) : (splitLines s).flatten = s.filter (!isBreak ·) := by
  fun_induction splitLines s with
  | case1 => rfl
  | case2 rest ih => simpa [isBreak] using ih
  | case3 c rest _ hc ih => simpa [hc] using ih
  | case4 c rest _ hc ih =>
    obtain ⟨line, more, hlines⟩ := List.exists_cons_of_ne_nil (splitLines_ne_nil rest)
    rw [hlines] at ih ⊢
    simpa [hc] using ih

/-! ### Tags between lines -/

theorem breakLines_cons (h : ∀ rest, c = '\r' → t = '\n' :: rest → False) :
    Text.breakLines (c :: t) =
      (if isBreak c then Text.breakTag else [c]) ++ Text.breakLines t :=
  Text.breakLines.eq_3 c t h

/-- Tags stand between the lines. -/
theorem breakLines_eq_intercalate (s : List Char) :
    Text.breakLines s = Text.breakTag.intercalate (splitLines s) := by
  have hbreak : ∀ rest, Text.breakTag.intercalate ([] :: splitLines rest) =
      Text.breakTag ++ Text.breakTag.intercalate (splitLines rest) := by
    intro rest
    obtain ⟨line, more, hlines⟩ := List.exists_cons_of_ne_nil (splitLines_ne_nil rest)
    rw [hlines, List.intercalate_cons_cons, List.nil_append]
  fun_induction splitLines s with
  | case1 => rfl
  | case2 rest ih => rw [Text.breakLines, ih, hbreak]
  | case3 c rest hpair hc ih => rw [breakLines_cons hpair, if_pos hc, ih, hbreak]
  | case4 c rest hpair hc ih =>
    obtain ⟨line, more, hlines⟩ := List.exists_cons_of_ne_nil (splitLines_ne_nil rest)
    rw [breakLines_cons hpair, if_neg hc, ih, hlines, List.modifyHead_cons]
    cases more <;> simp [List.intercalate]

/-- Puts a tag in place of each carriage return that a line feed follows, and of the line feed. -/
def replacePairs : List Char → List Char
  | '\r' :: '\n' :: rest => Text.breakTag ++ replacePairs rest
  | c :: rest => c :: replacePairs rest
  | [] => []

/-- Puts a tag in place of each single break. -/
def replaceSingles (s : List Char) : List Char :=
  s.flatMap fun c => if isBreak c then Text.breakTag else [c]

/-- The pairs may be replaced in the whole text before the other breaks are. -/
theorem replaceSingles_replacePairs (s : List Char) :
    replaceSingles (replacePairs s) = Text.breakLines s := by
  fun_induction replacePairs s with
  | case1 rest ih =>
    rw [replaceSingles, List.flatMap_append, ← replaceSingles, ← replaceSingles, ih]
    rfl
  | case2 c rest hpair ih =>
    rw [breakLines_cons hpair, ← ih]
    rfl
  | case3 => rfl

/-! ### Escaping in lines -/

theorem splitLines_cons (h : ∀ rest, c = '\r' → t = '\n' :: rest → False) :
    splitLines (c :: t) =
      if isBreak c then [] :: splitLines t else (splitLines t).modifyHead (c :: ·) :=
  splitLines.eq_3 c t h

/-- Characters without a break belong to the line behind them. -/
theorem splitLines_append (h : LinesBroken u) (t : List Char) :
    splitLines (u ++ t) = (splitLines t).modifyHead (u ++ ·) := by
  induction u with
  | nil => cases hlines : splitLines t <;> simp [hlines]
  | cons c u ih =>
    obtain ⟨hfeed, hreturn⟩ := h
    rw [List.mem_cons, not_or] at hfeed hreturn
    have hc : isBreak c = false := by simp [isBreak, Ne.symm hfeed.1, Ne.symm hreturn.1]
    rw [List.cons_append, splitLines_cons fun _ h _ => hreturn.1 h.symm, hc,
      ih ⟨hfeed.2, hreturn.2⟩, if_neg Bool.false_ne_true, List.modifyHead_modifyHead]
    rfl

theorem htmlReference_of_isBreak (h : isBreak c) : Text.htmlReference c = [c] := by
  simp only [isBreak, Bool.or_eq_true, decide_eq_true_eq] at h
  rcases h with rfl | rfl
  · rfl
  · rfl

theorem linesBroken_htmlReference (h : ¬ isBreak c) : LinesBroken (Text.htmlReference c) := by
  have hreferences : ∀ reference ∈ htmlReferences, '\n' ∉ reference ∧ '\r' ∉ reference := by decide
  rcases htmlReference_cases c with href | ⟨-, heq⟩
  · exact hreferences _ href
  · simp only [isBreak, Bool.or_eq_true, decide_eq_true_eq, not_or] at h
    rw [heq]
    exact ⟨by simpa using Ne.symm h.2, by simpa using Ne.symm h.1⟩

/-- Escaped text begins with a line feed only if the text does. -/
theorem eq_cons_of_escaped {more : List Char} (h : s.flatMap Text.htmlReference = '\n' :: more) :
    ∃ rest, s = '\n' :: rest := by
  cases s with
  | nil => simp at h
  | cons c s =>
    obtain ⟨d, ds, hd⟩ := List.exists_cons_of_ne_nil (safeUnit_htmlReference c).ne_nil
    rw [List.flatMap_cons, hd, List.cons_append] at h
    obtain ⟨rfl, -⟩ := List.cons.inj h
    by_cases hc : isBreak c
    · rw [htmlReference_of_isBreak hc] at hd
      obtain ⟨rfl, -⟩ := List.cons.inj hd
      exact ⟨s, rfl⟩
    · exact absurd (by simp [hd]) (linesBroken_htmlReference hc).1

/-- The lines of an escaped text are the escaped lines of the text. -/
theorem splitLines_escaped (s : List Char) : splitLines (s.flatMap Text.htmlReference) =
    (splitLines s).map (·.flatMap Text.htmlReference) := by
  fun_induction splitLines s with
  | case1 => rfl
  | case2 rest ih =>
    rw [List.map_cons, ← ih]
    rfl
  | case3 c rest hpair hc ih =>
    have hpair' : ∀ more, c = '\r' → rest.flatMap Text.htmlReference = '\n' :: more → False := by
      intro more hreturn hmore
      obtain ⟨rest', hrest⟩ := eq_cons_of_escaped hmore
      exact hpair rest' hreturn hrest
    rw [List.flatMap_cons, htmlReference_of_isBreak hc, List.singleton_append,
      splitLines_cons hpair', if_pos hc, ih]
    rfl
  | case4 c rest _ hc ih =>
    rw [List.flatMap_cons, splitLines_append (linesBroken_htmlReference hc), ih]
    cases splitLines rest <;> simp

/-! ### Texts -/

def lines (s : String) : List String := (splitLines s.toList).map String.ofList

theorem changeNewlineToBr_eq_join (s : String) :
    Text.changeNewlineToBr s = Text.join "<br>" (lines s) := by
  rw [← String.toList_inj, Text.changeNewlineToBr, String.toList_ofList, Text.join,
    String.toList_intercalate, breakLines_eq_intercalate, lines, List.map_map]
  simp [Function.comp_def, Text.breakTag]

theorem lines_escapeHtml (s : String) :
    lines (Text.escapeHtml s) = (lines s).map Text.escapeHtml := by
  rw [lines, Text.escapeHtml, toList_substitute, splitLines_escaped, lines, List.map_map,
    List.map_map]
  simp [Function.comp_def, Text.substitute]

/-- Changing line breaks to tags keeps the lines of a text: they are joined by tags, which is also
what replacing the pairs and then the other breaks gives. No break is left, and the lines have
all other characters. In an escaped text the lines are those of the text, each escaped, so that
every `<` is that of a tag. -/
theorem changeNewlineToBr_lines (s : String) :
    Text.changeNewlineToBr s = Text.join "<br>" (lines s) ∧
      (Text.changeNewlineToBr s).toList = replaceSingles (replacePairs s.toList) ∧
      LinesBroken (Text.changeNewlineToBr s).toList ∧
      (lines s).flatMap String.toList = s.toList.filter (!isBreak ·) ∧
      Text.changeNewlineToBr (Text.escapeHtml s) =
        Text.join "<br>" ((lines s).map Text.escapeHtml) ∧
      ∀ line ∈ lines s, '<' ∉ (Text.escapeHtml line).toList := by
  have hchars : (Text.changeNewlineToBr s).toList = Text.breakLines s.toList :=
    String.toList_ofList
  refine ⟨changeNewlineToBr_eq_join s, ?_, ?_, ?_, ?_, fun line _ => ?_⟩
  · rw [hchars, replaceSingles_replacePairs]
  · rw [hchars]
    exact linesBroken_breakLines s.toList
  · rw [← flatten_splitLines, lines, List.flatMap_map]
    simp only [String.toList_ofList, List.flatMap_id']
  · rw [changeNewlineToBr_eq_join, lines_escapeHtml]
  · exact (referenced_escapeHtml line).not_mem '<' (by decide)

end TemplateLang.Escaping
