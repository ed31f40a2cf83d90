import TemplateLang.Proofs.Escaping.EscapedText

/-! Reading escaped HTML text back. What stands for a character begins with an ampersand only if it
is a reference, so a reader from left to right finds a reference at each ampersand and never
takes one out of text that only looks like it. -/

namespace TemplateLang.Escaping

/-- Replaces the five references by the characters they stand for, from left to right. -/
def resolveReferences : List Char → List Char
  | '&' :: 'a' :: 'm' :: 'p' :: ';' :: rest => '&' :: resolveReferences rest
  | '&' :: 'l' :: 't' :: ';' :: rest => '<' :: resolveReferences rest
  | '&' :: 'g' :: 't' :: ';' :: rest => '>' :: resolveReferences rest
  | '&' :: 'q' :: 'u' :: 'o' :: 't' :: ';' :: rest => '"' :: resolveReferences rest
  | '&' :: '#' :: '3' :: '9' :: ';' :: rest => '\'' :: resolveReferences rest
  | c :: rest => c :: resolveReferences rest
  | [] => []

def unescapeHtml (s : String) : String := String.ofList (resolveReferences s.toList)

/-- A text without special characters, except for ampersands that begin references. -/
structure Referenced (text : List Char) : Prop where
  not_mem : ∀ c ∈ ['<', '>', '"', '\''], c ∉ text
  begins : ∀ before after, text = before ++ '&' :: after →
    ∃ reference ∈ htmlReferences, reference <+: '&' :: after

theorem resolveReferences_htmlReference (c : Char) (rest : List Char) :
    resolveReferences (Text.htmlReference c ++ rest) = c :: resolveReferences rest := by
  unfold Text.htmlReference
  split
  all_goals try rfl
  next hamp _ _ _ _ =>
    rw [List.singleton_append, resolveReferences.eq_6]
    all_goals exact fun _ h _ => hamp h

example : resolveReferences "&amp;lt;".toList = "&lt;".toList := by
  decide

theorem unescapeHtml_escapeHtml : Function.LeftInverse unescapeHtml Text.escapeHtml := by
  intro s
  rw [unescapeHtml, Text.escapeHtml, toList_substitute, ← String.toList_inj, String.toList_ofList]
  induction s.toList with
  | nil => rfl
  | cons c s ih => rw [List.flatMap_cons, resolveReferences_htmlReference, ih]

theorem referenced_escapeHtml (s : String) : Referenced (Text.escapeHtml s).toList := by
  rw [Text.escapeHtml, toList_substitute]
  constructor
  · intro d hd hmem
    obtain ⟨c, -, hc⟩ := List.mem_flatMap.mp hmem
    exact not_mem_htmlReference hd c hc
  · intro before after htext
    obtain ⟨p, c, r, x, y, -, hc, -, rfl⟩ := exists_of_flatMap_eq htext
    have hfirst : ∀ reference ∈ htmlReferences, '&' ∉ reference.tail := by decide
    rcases htmlReference_cases c with href | ⟨hspecial, heq⟩
    · refine ⟨_, href, ?_⟩
      cases x with
      | nil => exact ⟨r.flatMap Text.htmlReference, by simp [hc]⟩
      | cons a x => exact absurd (by simp [hc]) (hfirst _ href)
    · rw [heq] at hc
      obtain rfl : c = '&' := by
        have hmem : '&' ∈ [c] := by simp [hc]
        exact (List.mem_singleton.mp hmem).symm
      exact absurd (by decide) hspecial

/-- Escaping for HTML loses nothing: the references read from left to right give the text back,
also where the text has references of its own, and what is escaped has no special character
but the ampersands of its references. -/
theorem escapeHtml_lossless :
    Function.LeftInverse unescapeHtml Text.escapeHtml ∧ Function.Injective Text.escapeHtml ∧
      ∀ s, Referenced (Text.escapeHtml s).toList :=
  ⟨unescapeHtml_escapeHtml, unescapeHtml_escapeHtml.injective, referenced_escapeHtml⟩

end TemplateLang.Escaping
