import TemplateLang.Proofs.Escaping.EscapedText

/-! Cuts of escaped HTML text. A position of the escaped text lies inside what stands for one
character of the text, or just before it. Either way what is kept is what stands for the
characters before that one, and these are all that fit into the room. -/

namespace TemplateLang.Escaping

variable {s : List Char} {f : Char → List Char} {c : Char} {k n limit : ℕ} {ellipsis : Bool}

/-- A position of a substituted text lies in what stands for one of the characters. -/
theorem exists_substituted (h : k < (s.flatMap f).length) :
    ∃ p c rest, s = p ++ c :: rest ∧ (p.flatMap f).length ≤ k ∧
      k < (p.flatMap f).length + (f c).length := by
  have hsplit : s.flatMap f =
      (s.flatMap f).take k ++ (s.flatMap f)[k] :: (s.flatMap f).drop (k + 1) := by
    rw [List.getElem_cons_drop, List.take_append_drop]
  obtain ⟨p, c, rest, x, y, hs, hc, hbefore, -⟩ := exists_of_flatMap_eq hsplit
  have hlength := congrArg List.length hbefore
  rw [List.length_take_of_le (Nat.le_of_lt h), List.length_append] at hlength
  refine ⟨p, c, rest, hs, by omega, ?_⟩
  rw [hc, List.length_append, List.length_cons]
  omega

/-- What stands for several characters of HTML is one character or begins with an ampersand. -/
theorem head?_htmlReference (h : 2 ≤ (Text.htmlReference c).length) :
    (Text.htmlReference c).head? = some '&' := by
  have hreferences : ∀ reference ∈ htmlReferences, reference.head? = some '&' := by decide
  rcases htmlReference_cases c with href | ⟨-, heq⟩
  · exact hreferences _ href
  · rw [heq, List.length_singleton] at h
    omega

/-- The cut keeps what stands for the characters before it. -/
theorem cutBefore_escaped (p rest : List Char) (hk : k < (Text.htmlReference c).length) :
    Text.cutBefore
        (((p ++ c :: rest).flatMap Text.htmlReference).take
          ((p.flatMap Text.htmlReference).length + k))
        (((p ++ c :: rest).flatMap Text.htmlReference).drop
          ((p.flatMap Text.htmlReference).length + k)) =
      p.flatMap Text.htmlReference := by
  have hsafe : Safe .html (p.flatMap Text.htmlReference) := .flatMap safe_htmlReference p
  rw [List.flatMap_append, List.flatMap_cons, List.take_length_add_append,
    List.drop_length_add_append, List.take_append_of_le_length (Nat.le_of_lt hk),
    List.drop_append_of_le_length (Nat.le_of_lt hk)]
  rcases Nat.eq_zero_or_pos k with rfl | hpos
  · rw [List.take_zero, List.append_nil]
    exact cutBefore_eq_self hsafe.not_endsInReference
  · exact (safeUnit_htmlReference c).cutBefore_take (head?_htmlReference (by omega)) hsafe hpos hk

/-! ### The longest part that fits -/

/-- `p` is the longest beginning of `s` of which the escaped form has `n` characters at most. -/
structure LongestWithin (n : ℕ) (s p : String) : Prop where
  isPrefix : p.toList <+: s.toList
  length_le : (Text.escapeHtml p).length ≤ n
  longest : ∀ q : String, q.toList <+: s.toList → (Text.escapeHtml q).length ≤ n →
    q.toList <+: p.toList

theorem length_escapeHtml (s : String) :
    (Text.escapeHtml s).length = (s.toList.flatMap Text.htmlReference).length := by
  rw [← String.length_toList, Text.escapeHtml, toList_substitute]

theorem longestWithin_of_split {p rest : List Char}
    (hlow : (p.flatMap Text.htmlReference).length ≤ n)
    (hhigh : n < (p.flatMap Text.htmlReference).length + (Text.htmlReference c).length) :
    LongestWithin n (String.ofList (p ++ c :: rest)) (String.ofList p) := by
  refine ⟨by simp, by rwa [length_escapeHtml, String.toList_ofList], fun q hq hlength => ?_⟩
  rw [String.toList_ofList] at hq ⊢
  rcases List.prefix_or_prefix_of_prefix hq (List.prefix_append p _) with h | ⟨d, hd⟩
  · exact h
  · -- a longer beginning would have the next character as well
    cases d with
    | nil => exact ⟨[], by simpa using hd.symm⟩
    | cons x d =>
      rw [← hd, List.prefix_append_right_inj] at hq
      obtain ⟨rfl, -⟩ := List.cons_prefix_cons.mp hq
      rw [length_escapeHtml, ← hd, List.flatMap_append, List.flatMap_cons, List.length_append,
        List.length_append] at hlength
      omega

/-- Cutting an escaped text cuts between the characters of the text: what is left is the escaped
form of the longest beginning that fits, and the dots. -/
theorem truncate_escapeHtml (s : String) (limit : ℕ) (ellipsis : Bool) :
    (Text.escapeHtml s).length ≤ limit ∧
        Text.truncate (Text.escapeHtml s) limit ellipsis = Text.escapeHtml s ∨
      limit < (Text.escapeHtml s).length ∧ ∃ p, LongestWithin (room limit ellipsis) s p ∧
        Text.truncate (Text.escapeHtml s) limit ellipsis =
          Text.escapeHtml p ++ String.ofList (List.replicate (dots limit ellipsis) '.') := by
  have hchars : (Text.escapeHtml s).toList = s.toList.flatMap Text.htmlReference := by
    rw [Text.escapeHtml, toList_substitute]
  rcases Nat.lt_or_ge limit (Text.escapeHtml s).length with h | h
  · right
    have hroom : room limit ellipsis < (s.toList.flatMap Text.htmlReference).length := by
      rw [length_escapeHtml] at h
      rw [room]
      omega
    obtain ⟨p, c, rest, hs, hlow, hhigh⟩ := exists_substituted hroom
    refine ⟨h, String.ofList p, ?_, ?_⟩
    · rw [← String.ofList_toList (s := s), hs]
      exact longestWithin_of_split hlow hhigh
    · obtain ⟨k, hk⟩ := Nat.exists_eq_add_of_le hlow
      rw [← String.toList_inj, toList_truncate_of_lt h, hchars, hs, hk,
        cutBefore_escaped p rest (by omega), String.toList_append, Text.escapeHtml,
        toList_substitute, String.toList_ofList, String.toList_ofList]
  · exact .inl ⟨h, truncate_of_le h⟩

end TemplateLang.Escaping
