import TemplateLang.Proofs.Escaping.Cut

/-! Line breaks in escaped texts. Only an HTML text has line breaks, and tags in their place
leave it safe. A text without line breaks stays as it is. -/

namespace TemplateLang.Escaping

variable {context : EscapeContext} {a b r s t : List Char} {p : ℕ}

/-- Whether a text has no line breaks left to change. -/
def LinesBroken (t : List Char) : Prop := '\n' ∉ t ∧ '\r' ∉ t

theorem breakLines_append (h : LinesBroken a) (b : List Char) :
    Text.breakLines (a ++ b) = a ++ Text.breakLines b := by
  induction a with
  | nil => rfl
  | cons c a ih =>
    obtain ⟨hn, hr⟩ := h
    rw [List.mem_cons, not_or] at hn hr
    have hstep : Text.breakLines (c :: (a ++ b)) = c :: Text.breakLines (a ++ b) := by
      rw [Text.breakLines.eq_3 c (a ++ b) fun rest hc _ => hr.1 hc.symm]
      simp [Ne.symm hn.1, Ne.symm hr.1]
    rw [List.cons_append, hstep, ih ⟨hn.2, hr.2⟩, List.cons_append]

theorem breakLines_eq_self (h : LinesBroken t) : Text.breakLines t = t := by
  have := breakLines_append h []
  simpa [Text.breakLines] using this

theorem linesBroken_breakLines (t : List Char) : LinesBroken (Text.breakLines t) := by
  fun_induction Text.breakLines t with
  | case1 => simp [LinesBroken]
  | case2 rest ih => simpa [LinesBroken, Text.breakTag] using ih
  | case3 c rest _ ih =>
    by_cases hc : c = '\r' ∨ c = '\n'
    · simpa [LinesBroken, hc, Text.breakTag] using ih
    · obtain ⟨hr, hn⟩ := not_or.mp hc
      simpa [LinesBroken, hr, hn, Ne.symm hr, Ne.symm hn] using ih

/-- Line breaks are units of HTML only. -/
theorem SafeUnit.linesBroken_or (hu : SafeUnit context a) :
    (context = .html ∧ (a = ['\n'] ∨ a = ['\r'])) ∨ LinesBroken a := by
  have hhex : ∀ {c : Char}, isHexDigit c → '\n' ≠ c ∧ '\r' ≠ c := fun hc =>
    ⟨isHexDigit_ne hc (by decide), isHexDigit_ne hc (by decide)⟩
  cases hu with
  | @htmlPlain c hc =>
    by_cases hn : c = '\n'
    · exact .inl ⟨rfl, .inl (by rw [hn])⟩
    · by_cases hr : c = '\r'
      · exact .inl ⟨rfl, .inr (by rw [hr])⟩
      · exact .inr (by simp [LinesBroken, Ne.symm hn, Ne.symm hr])
  | htmlReference hn =>
    refine .inr ?_
    simp [LinesBroken, hn.not_mem (c := '\n') (by decide), hn.not_mem (c := '\r') (by decide)]
  | htmlBreak => exact .inr ⟨by decide, by decide⟩
  | jsPlain hc =>
    refine .inr ?_
    simp only [jsSpecials, List.mem_cons, not_or] at hc
    simp [LinesBroken, Ne.symm hc.2.2.2.1, Ne.symm hc.2.2.2.2.1]
  | jsSimple hc =>
    refine .inr ⟨?_, ?_⟩ <;> rintro hm <;> obtain rfl : _ = _ := by simpa using hm
    all_goals exact absurd hc (by decide)
  | jsHex ha hb => exact .inr (by simp [LinesBroken, hhex ha, hhex hb])
  | jsUnicode ha hb hc hd => exact .inr (by simp [LinesBroken, hhex ha, hhex hb, hhex hc, hhex hd])
  | uriPlain hc =>
    refine .inr ⟨?_, ?_⟩ <;> rintro hm <;> obtain rfl : _ = _ := by simpa using hm
    all_goals exact absurd hc (by decide)
  | uriTriple ha hb => exact .inr (by simp [LinesBroken, hhex ha, hhex hb])

/-! ### Safe texts -/

/-- A line feed after a carriage return is no break of its own. -/
theorem breakLines_return (t : List Char) :
    ∃ r, (t = r ∨ t = '\n' :: r) ∧
      Text.breakLines ('\r' :: t) = Text.breakTag ++ Text.breakLines r := by
  by_cases h : ∃ r, t = '\n' :: r
  · obtain ⟨r, rfl⟩ := h
    exact ⟨r, .inr rfl, Text.breakLines.eq_2 r⟩
  · refine ⟨t, .inl rfl, ?_⟩
    rw [Text.breakLines.eq_3 '\r' t fun r _ ht => h ⟨r, ht⟩]
    rfl

theorem breakLines_newline (t : List Char) :
    Text.breakLines ('\n' :: t) = Text.breakTag ++ Text.breakLines t := by
  rw [Text.breakLines.eq_3 '\n' t fun r hc _ => absurd hc (by decide)]
  rfl

theorem Safe.breakLines (h : Safe context t) : Safe context (Text.breakLines t) := by
  -- a break may take the line feed that the rest begins with
  suffices Safe context (Text.breakLines t) ∧
      ∀ r, t = '\n' :: r → Safe context (Text.breakLines r) from this.1
  induction h with
  | nil => exact ⟨.nil, fun r h => by simp at h⟩
  | @cons u t hu ht ih =>
    rcases hu.linesBroken_or with ⟨rfl, rfl | rfl⟩ | hl
    · refine ⟨?_, ?_⟩
      · rw [List.singleton_append, breakLines_newline]
        exact .cons .htmlBreak ih.1
      · rintro r h
        obtain ⟨-, rfl⟩ := List.cons_eq_cons.mp h
        exact ih.1
    · refine ⟨?_, fun r h => by simp at h⟩
      obtain ⟨r, hr, he⟩ := breakLines_return t
      rw [List.singleton_append, he]
      refine .cons .htmlBreak ?_
      rcases hr with rfl | hr
      · exact ih.1
      · exact ih.2 r hr
    · refine ⟨?_, ?_⟩
      · rw [breakLines_append hl]
        exact .cons hu ih.1
      · rintro r h
        obtain ⟨c, s, rfl⟩ := List.exists_cons_of_ne_nil hu.ne_nil
        obtain ⟨rfl, -⟩ := List.cons_eq_cons.mp h
        exact absurd (List.mem_cons_self ..) hl.1

theorem Safe.linesBroken (h : Safe context t) (hc : context ≠ .html) : LinesBroken t := by
  induction h with
  | nil => exact ⟨by simp, by simp⟩
  | @cons u t hu ht ih =>
    rcases hu.linesBroken_or with ⟨rfl, -⟩ | hl
    · exact absurd rfl hc
    · exact ⟨by simp [hl.1, ih.1], by simp [hl.2, ih.2]⟩

end TemplateLang.Escaping
