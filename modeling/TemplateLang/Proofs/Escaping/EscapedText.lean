import TemplateLang.Proofs.Escaping.Chain

/-! The default escapes write safe texts: what stands for one character is a sequence of units
of the context. -/

namespace TemplateLang.Escaping

/-- What the default directive of a context does to a text. -/
def escapeFor : EscapeContext → String → String
  | .html => Text.escapeHtml
  | .jsString => Text.escapeJsString
  | .uri => Text.escapeUri

theorem toList_substitute (f : Char → List Char) (s : String) :
    (Text.substitute f s).toList = s.toList.flatMap f := by
  rw [Text.substitute, String.toList_ofList]

/-- A character of a substituted text stands in what is put in place of some character. -/
theorem exists_of_flatMap_eq {s before after : List Char} {f : Char → List Char} {d : Char}
    (h : s.flatMap f = before ++ d :: after) :
    ∃ p c r x y, s = p ++ c :: r ∧ f c = x ++ d :: y ∧ before = p.flatMap f ++ x ∧
      after = y ++ r.flatMap f := by
  induction s generalizing before with
  | nil => simp at h
  | cons c s ih =>
    rw [List.flatMap_cons, List.append_eq_append_iff] at h
    rcases h with ⟨w, rfl, hs⟩ | ⟨w, hc, hs⟩
    · obtain ⟨p, e, r, x, y, rfl, he, rfl, rfl⟩ := ih hs
      exact ⟨c :: p, e, r, x, y, rfl, he, by simp, rfl⟩
    · cases w with
      | nil =>
        obtain ⟨p, e, r, x, y, rfl, he, hp, rfl⟩ := @ih [] (by simpa using hs.symm)
        exact ⟨c :: p, e, r, x, y, rfl, he, by simp [← hp, hc], rfl⟩
      | cons e w =>
        obtain ⟨rfl, rfl⟩ := List.cons.inj hs
        exact ⟨[], c, s, before, w, rfl, hc, by simp, rfl⟩

/-! ### HTML -/

/-- The references that stand for the five special characters. -/
def htmlReferences : List (List Char) :=
  ["&amp;".toList, "&lt;".toList, "&gt;".toList, "&quot;".toList, "&#39;".toList]

theorem htmlReference_cases (c : Char) :
    Text.htmlReference c ∈ htmlReferences ∨ c ∉ htmlSpecials ∧ Text.htmlReference c = [c] := by
  unfold Text.htmlReference
  split
  all_goals try exact .inl (by decide)
  refine .inr ⟨?_, rfl⟩
  simp_all [htmlSpecials]

/-- What stands for one character is one unit. -/
theorem safeUnit_htmlReference (c : Char) : SafeUnit .html (Text.htmlReference c) := by
  have hname : ∀ c cs, (c :: cs).all Char.isAlphanum →
      SafeUnit .html ('&' :: (c :: cs ++ [';'])) :=
    fun c cs h => .htmlReference (.inl ⟨List.cons_ne_nil c cs, List.all_eq_true.mp h⟩)
  unfold Text.htmlReference
  split
  · exact hname 'a' ['m', 'p'] rfl
  · exact hname 'l' ['t'] rfl
  · exact hname 'g' ['t'] rfl
  · exact hname 'q' ['u', 'o', 't'] rfl
  · have hname : IsReferenceName ['#', '3', '9'] :=
      .inr ⟨['3', '9'], rfl, List.cons_ne_nil _ _, List.all_eq_true.mp rfl⟩
    exact .htmlReference hname
  · refine .htmlPlain ?_
    simp only [htmlSpecials, List.mem_cons, List.not_mem_nil, or_false]
    simp_all

theorem safe_htmlReference (c : Char) : Safe .html (Text.htmlReference c) :=
  (safeUnit_htmlReference c).safe

/-- The special characters other than the ampersand are only in the texts that are escaped. -/
theorem not_mem_htmlReference {d : Char} (hd : d ∈ ['<', '>', '"', '\'']) (c : Char) :
    d ∉ Text.htmlReference c := by
  have hreferences : ∀ reference ∈ htmlReferences,
      ['<', '>', '"', '\''].all (· ∉ reference) := by decide
  rcases htmlReference_cases c with href | ⟨hspecial, heq⟩
  · exact of_decide_eq_true (List.all_eq_true.mp (hreferences _ href) d hd)
  · rw [heq, List.mem_singleton]
    rintro rfl
    exact hspecial (List.mem_cons_of_mem _ hd)

theorem lt_not_mem_htmlReference (c : Char) : '<' ∉ Text.htmlReference c :=
  not_mem_htmlReference (by decide) c

/-! ### JavaScript strings -/

theorem safe_jsSequence (c : Char) : Safe .jsString (Text.jsSequence c) := by
  unfold Text.jsSequence
  split
  · exact (SafeUnit.jsSimple (by decide)).safe
  · exact (SafeUnit.jsSimple (by decide)).safe
  · exact (SafeUnit.jsSimple (by decide)).safe
  · exact (SafeUnit.jsSimple (by decide)).safe
  · exact (SafeUnit.jsSimple (by decide)).safe
  · exact (SafeUnit.jsSimple (by decide)).safe
  · exact (SafeUnit.jsHex (by decide) (by decide)).safe
  · exact (SafeUnit.jsHex (by decide) (by decide)).safe
  · exact (SafeUnit.jsHex (by decide) (by decide)).safe
  · exact (SafeUnit.jsUnicode (by decide) (by decide) (by decide) (by decide)).safe
  · exact (SafeUnit.jsUnicode (by decide) (by decide) (by decide) (by decide)).safe
  · refine (SafeUnit.jsPlain ?_).safe
    simp only [jsSpecials, List.mem_cons, List.not_mem_nil, or_false]
    simp_all

/-! ### URIs -/

theorem isHexDigit_upperHexDigit {n : ℕ} (h : n < 16) : isHexDigit (Text.upperHexDigit n) := by
  have hall : ∀ n < 16, isHexDigit (Text.upperHexDigit n) := by decide
  exact hall n h

theorem safe_percentTriple (b : UInt8) : Safe .uri (Text.percentTriple b) := by
  have hb := b.toNat_lt
  exact (SafeUnit.uriTriple (isHexDigit_upperHexDigit (by omega))
    (isHexDigit_upperHexDigit (by omega))).safe

theorem safe_uriTriples (c : Char) : Safe .uri (Text.uriTriples c) := by
  unfold Text.uriTriples
  split_ifs with h
  · refine (SafeUnit.uriPlain ?_).safe
    simp only [Text.isUnreserved, Bool.or_eq_true, decide_eq_true_eq] at h
    rcases h with (((h | rfl) | rfl) | rfl) | rfl
    · exact .inl (isAsciiAlphanumeric_iff.mp h)
    all_goals exact .inr (by decide)
  · induction String.utf8EncodeChar c with
    | nil => exact .nil
    | cons b bytes ih =>
      rw [List.flatMap_cons]
      exact (safe_percentTriple b).append ih

/-! ### All contexts -/

theorem safe_escapeFor (context : EscapeContext) (s : String) :
    Safe context (escapeFor context s).toList := by
  cases context with
  | html =>
    rw [escapeFor, Text.escapeHtml, toList_substitute]
    exact .flatMap safe_htmlReference _
  | jsString =>
    rw [escapeFor, Text.escapeJsString, toList_substitute]
    exact .flatMap safe_jsSequence _
  | uri =>
    rw [escapeFor, Text.escapeUri, toList_substitute]
    exact .flatMap safe_uriTriples _

theorem settled_escapeFor (context : EscapeContext) (s : String) :
    Settled context (escapeFor context s).toList := by
  rintro rfl hm
  rw [escapeFor, Text.escapeHtml, toList_substitute] at hm
  obtain ⟨c, -, hc⟩ := List.mem_flatMap.mp hm
  exact absurd hc (lt_not_mem_htmlReference c)

end TemplateLang.Escaping
