import TemplateLang.Proofs.Escaping.Chain
import TemplateLang.Proofs.Text.Offset

/-! Cuts of any text. A text that is too long is cut where its room ends, or before the character
reference that goes on beyond that position; at most one does, since a reference has one
ampersand. The cut divides no reference then, keeps to the limit together with its dots, and is
found alike by a scan of the bytes, which are divided between characters only. -/

namespace TemplateLang.Escaping

variable {before kept more name rest t : List Char} {k p q limit : ℕ} {ellipsis : Bool}

/-! ### References around a position -/

/-- An ampersand, letters, digits and number signs, and a semicolon. -/
def IsReference (r : List Char) : Prop :=
  ∃ name, r = '&' :: (name ++ [';']) ∧ name ≠ [] ∧ ∀ c ∈ name, Text.isReferenceChar c

/-- At `p` a character reference begins that goes on beyond `k`. -/
def Spans (t : List Char) (p k : ℕ) : Prop :=
  ∃ a r b, t = a ++ (r ++ b) ∧ a.length = p ∧ IsReference r ∧ p < k ∧ k < p + r.length

theorem not_mem_of_forall_isReferenceChar (h : ∀ c ∈ name, Text.isReferenceChar c) :
    '&' ∉ name := by
  intro hm
  exact absurd (h '&' hm) (by decide)

/-- A text has one last ampersand. -/
theorem last_ampersand_unique {a b x y : List Char} (hx : '&' ∉ x) (hy : '&' ∉ y)
    (h : a ++ '&' :: x = b ++ '&' :: y) : a = b ∧ x = y := by
  rcases List.append_eq_append_iff.mp h with ⟨d, rfl, hd⟩ | ⟨d, rfl, hd⟩
  · cases d with
    | nil => simpa using hd
    | cons c d =>
      obtain ⟨-, rfl⟩ := List.cons.inj hd
      simp at hx
  · cases d with
    | nil => simpa using hd.symm
    | cons c d =>
      obtain ⟨-, rfl⟩ := List.cons.inj hd
      simp at hy

theorem cutBefore_of_not_mem (h : '&' ∉ kept) : Text.cutBefore kept rest = kept := by
  refine cutBefore_eq_self ?_
  rintro ⟨before, name, rfl, -⟩
  simp at h

/-- What stands behind the last ampersand decides whether the cut moves back. -/
theorem cutBefore_append (h : '&' ∉ name) :
    Text.cutBefore (before ++ '&' :: name) rest =
      if name.all Text.isReferenceChar && Text.completesReference name rest then before
      else before ++ '&' :: name := by
  by_cases hname : ∀ c ∈ name, Text.isReferenceChar c
  · have hrev : ∀ c ∈ name.reverse, Text.isReferenceChar c := fun c hc =>
      hname c (List.mem_reverse.mp hc)
    have hamp : Text.isReferenceChar '&' = false := by decide
    simp only [Text.cutBefore, Text.completesReference, List.reverse_append, List.reverse_cons,
      List.append_assoc, List.singleton_append]
    rw [List.dropWhile_append_of_pos hrev, List.takeWhile_append_of_pos hrev]
    have hall : name.all Text.isReferenceChar := List.all_eq_true.mpr hname
    simp [hamp, hall]
  · have hall : name.all Text.isReferenceChar = false :=
      Bool.eq_false_iff.mpr fun hall => hname (List.all_eq_true.mp hall)
    rw [hall, Bool.false_and, if_neg Bool.false_ne_true]
    refine cutBefore_eq_self ?_
    rintro ⟨before', name', he, hname'⟩
    obtain ⟨-, rfl⟩ := last_ampersand_unique h (not_mem_of_forall_isReferenceChar hname') he
    exact hname hname'

/-- The names of references are completed by what is left of them and a semicolon. -/
theorem completesReference_iff : Text.completesReference name rest ↔
    ∃ more after, rest = more ++ ';' :: after ∧ name ++ more ≠ [] ∧
      ∀ c ∈ more, Text.isReferenceChar c := by
  have hsemi : Text.isReferenceChar ';' = false := by decide
  simp only [Text.completesReference, Bool.and_eq_true, decide_eq_true_eq]
  constructor
  · rintro ⟨hpos, hhead⟩
    obtain ⟨after, hafter⟩ := List.head?_eq_some_iff.mp hhead
    refine ⟨rest.takeWhile Text.isReferenceChar, after, ?_, ?_, fun c => List.mem_takeWhile_imp⟩
    · rw [← hafter, List.takeWhile_append_dropWhile]
    · rw [← List.length_pos_iff, List.length_append]
      exact hpos
  · rintro ⟨more, after, rfl, hne, hmore⟩
    rw [List.takeWhile_append_of_pos hmore, List.dropWhile_append_of_pos hmore]
    rw [← List.length_pos_iff, List.length_append] at hne
    simp [hsemi, hne]

theorem exists_last_ampersand (h : '&' ∈ kept) :
    ∃ before name, kept = before ++ '&' :: name ∧ '&' ∉ name := by
  obtain ⟨name, before, hk, hname⟩ := List.eq_append_cons_of_mem (List.mem_reverse.mpr h)
  refine ⟨before.reverse, name.reverse, ?_, by simpa using hname⟩
  rw [← List.reverse_reverse kept, hk]
  simp

/-! ### Where a text is cut -/

/-- Inside a character reference the cut moves back to before its ampersand. -/
theorem Spans.cutBefore (h : Spans t p k) :
    Text.cutBefore (t.take k) (t.drop k) = t.take p := by
  obtain ⟨a, r, b, rfl, rfl, ⟨name, rfl, hne, hname⟩, hlow, hhigh⟩ := h
  obtain ⟨j, rfl⟩ : ∃ j, k = a.length + (j + 1) := ⟨k - a.length - 1, by omega⟩
  have hj : j ≤ name.length := by
    simp at hhigh
    omega
  rw [List.take_length_add_append, List.drop_length_add_append, List.take_left,
    List.cons_append, List.take_succ_cons, List.drop_succ_cons, List.append_assoc,
    List.take_append_of_le_length hj, List.drop_append_of_le_length hj, List.singleton_append,
    cutBefore_reference]
  · rwa [List.take_append_drop]
  · rwa [List.take_append_drop]

/-- A cut stays where it is, unless there is a character reference around it. -/
theorem cutBefore_eq_self_or_spans (kept rest : List Char) :
    Text.cutBefore kept rest = kept ∨ ∃ p, Spans (kept ++ rest) p kept.length := by
  by_cases hamp : '&' ∈ kept
  · obtain ⟨before, name, rfl, hname⟩ := exists_last_ampersand hamp
    rw [cutBefore_append hname]
    split_ifs with hcut
    · right
      rw [Bool.and_eq_true, List.all_eq_true] at hcut
      obtain ⟨more, after, rfl, hne, hmore⟩ := completesReference_iff.mp hcut.2
      refine ⟨before.length, before, '&' :: (name ++ more ++ [';']), after, by simp, rfl,
        ⟨name ++ more, rfl, hne, fun c hc => ?_⟩, by simp, by simp⟩
      exact (List.mem_append.mp hc).elim (hcut.1 c) (hmore c)
    · exact .inl rfl
  · exact .inl (cutBefore_of_not_mem hamp)

theorem Spans.length_cutBefore (h : Spans t p k) :
    (Text.cutBefore (t.take k) (t.drop k)).length = p := by
  have hle : p ≤ t.length := by
    obtain ⟨a, r, b, rfl, rfl, -⟩ := h
    simp
  rw [h.cutBefore, List.length_take_of_le hle]

theorem cutBefore_of_not_spans (h : ∀ p, ¬ Spans t p k) (hk : k ≤ t.length) :
    Text.cutBefore (t.take k) (t.drop k) = t.take k := by
  rcases cutBefore_eq_self_or_spans (t.take k) (t.drop k) with hcut | ⟨p, hp⟩
  · exact hcut
  · rw [List.take_append_drop, List.length_take_of_le hk] at hp
    exact absurd hp (h p)

/-- No character reference goes on beyond the ampersand of another. -/
theorem Spans.not_spans (h : Spans t p k) : ¬ Spans t q p := by
  obtain ⟨a, r, b, rfl, rfl, ⟨name, rfl, -⟩, -⟩ := h
  rintro ⟨a', r', b', he, rfl, ⟨name', rfl, -, hname'⟩, hlow, hhigh⟩
  obtain ⟨d, rfl⟩ : a' <+: a := List.prefix_of_prefix_length_le (List.prefix_append a' _)
    (he ▸ List.prefix_append a _) (Nat.le_of_lt hlow)
  obtain ⟨c, d, rfl⟩ := List.exists_cons_of_ne_nil (l := d) (by rintro rfl; simp at hlow)
  -- the ampersand would be a character of the other reference
  have hd : c :: (d ++ ['&']) <+: '&' :: (name' ++ [';']) := by
    have hfirst : c :: (d ++ ['&']) <+: c :: d ++ ('&' :: (name ++ [';']) ++ b) := by simp
    have hsecond : '&' :: (name' ++ [';']) <+: c :: d ++ ('&' :: (name ++ [';']) ++ b) := by
      rw [List.append_assoc, List.append_cancel_left_eq] at he
      rw [he]
      exact List.prefix_append _ b'
    refine List.prefix_of_prefix_length_le hfirst hsecond ?_
    simp at hhigh ⊢
    omega
  have hmem := (List.cons_prefix_cons.mp hd).2.subset
    (List.mem_append_right d (List.mem_singleton_self _))
  rcases List.mem_append.mp hmem with hm | hm
  · exact not_mem_of_forall_isReferenceChar hname' hm
  · simp at hm

/-! ### Offsets -/

theorem cutOffset_append (kept rest : List Char) :
    Text.cutOffset (Text.utf8 (kept ++ rest)) (Text.utf8 kept).length =
      (Text.utf8 (Text.cutBefore kept rest)).length := by
  rw [Text.cutOffset]
  by_cases hamp : '&' ∈ kept
  · obtain ⟨before, name, rfl, hname⟩ := exists_last_ampersand hamp
    rw [Text.referenceStart?_append hname, cutBefore_append hname]
    split_ifs <;> rfl
  · rw [Text.referenceStart?_eq_none hamp, cutBefore_of_not_mem hamp]
    rfl

theorem prefix_cutBefore (kept rest : List Char) : Text.cutBefore kept rest <+: kept := by
  by_cases hamp : '&' ∈ kept
  · obtain ⟨before, name, rfl, hname⟩ := exists_last_ampersand hamp
    rw [cutBefore_append hname]
    split_ifs
    · exact List.prefix_append before _
    · exact List.prefix_rfl
  · exact ⟨[], by rw [List.append_nil, cutBefore_of_not_mem hamp]⟩

/-- Every offset at which bytes are divided is the end of some first characters. -/
theorem exists_prefix_of_mem_sliceOffsets {i : ℕ}
    (h : i ∈ Text.sliceOffsets (Text.utf8 (kept ++ rest)) (Text.utf8 kept).length) :
    ∃ a, a <+: kept ++ rest ∧ i = (Text.utf8 a).length := by
  simp only [Text.sliceOffsets, List.cons_append, List.mem_cons, List.mem_append,
    List.not_mem_nil, or_false, Option.mem_toList, Option.map_eq_some_iff] at h
  rw [cutOffset_append, Text.utf8_append kept rest, List.take_left] at h
  rcases h with rfl | ⟨start, hstart, rfl⟩ | rfl
  · exact ⟨kept, List.prefix_append kept rest, rfl⟩
  · by_cases hamp : '&' ∈ kept
    · obtain ⟨before, name, rfl, hname⟩ := exists_last_ampersand hamp
      obtain rfl := Option.some.inj ((Text.lastAmpersand?_utf8 hname).symm.trans hstart)
      refine ⟨before ++ ['&'], by simp, ?_⟩
      rw [Text.utf8_append, List.length_append]
      rfl
    · rw [Text.lastAmpersand?_eq_none (Text.ampersandByte_not_mem hamp)] at hstart
      cases hstart
  · exact ⟨_, (prefix_cutBefore kept rest).trans (List.prefix_append kept rest), rfl⟩

/-- First characters end at a position of the text. -/
theorem isValid_of_prefix {s : String} {a : List Char} (h : a <+: s.toList) :
    (⟨(Text.utf8 a).length⟩ : String.Pos.Raw).IsValid s := by
  refine String.Pos.Raw.isValid_iff_exists_take_toList.mpr ⟨a.length, ?_⟩
  rw [← List.prefix_iff_eq_take.mp h]
  exact Text.length_utf8 a

/-! ### Texts within a limit -/

/-- The text `s`, which is too long, is cut to its first `k` characters and the dots. -/
structure CutAt (s : String) (limit : ℕ) (ellipsis : Bool) (k : ℕ) : Prop where
  toList_eq : (Text.truncate s limit ellipsis).toList =
    s.toList.take k ++ List.replicate (dots limit ellipsis) '.'
  /-- Before a character reference that goes on beyond the room. -/
  moved : ∀ p, Spans s.toList p (room limit ellipsis) → k = p
  /-- At the end of the room otherwise. -/
  stays : (∀ p, ¬ Spans s.toList p (room limit ellipsis)) → k = room limit ellipsis
  undivided : ∀ p, ¬ Spans s.toList p k
  /-- The scan of the bytes comes to the same place. -/
  utf8_eq : Text.utf8 (Text.truncate s limit ellipsis).toList =
    (Text.utf8 s.toList).take (Text.cutOffset (Text.utf8 s.toList)
        (Text.charOffset s.toList (room limit ellipsis))) ++
      Text.utf8 (List.replicate (dots limit ellipsis) '.')
  /-- Bytes are divided between two characters. -/
  boundaries : ∀ i ∈ Text.sliceOffsets (Text.utf8 s.toList)
      (Text.charOffset s.toList (room limit ellipsis)),
    (⟨i⟩ : String.Pos.Raw).IsValid s

theorem room_add_dots (limit : ℕ) (ellipsis : Bool) :
    room limit ellipsis + dots limit ellipsis = limit := by
  rw [room, dots]
  split_ifs with h
  · simp at h
    omega
  · omega

theorem CutAt.length_le {s : String} (h : CutAt s limit ellipsis k) :
    (Text.truncate s limit ellipsis).length ≤ limit := by
  have hk : k ≤ room limit ellipsis := by
    by_cases hspans : ∃ p, Spans s.toList p (room limit ellipsis)
    · obtain ⟨p, hp⟩ := hspans
      obtain ⟨-, -, -, -, -, -, hlow, -⟩ := h.moved p hp ▸ hp
      omega
    · exact Nat.le_of_eq (h.stays (not_exists.mp hspans))
  have htake := List.length_take_le k s.toList
  have hsum := room_add_dots limit ellipsis
  rw [← String.length_toList, h.toList_eq, List.length_append, List.length_replicate]
  omega

/-- A text that is too long is cut. -/
theorem exists_cutAt {s : String} (h : limit < s.length) (ellipsis : Bool) :
    ∃ k, CutAt s limit ellipsis k := by
  have hroom : room limit ellipsis ≤ s.toList.length := by
    rw [String.length_toList, room]
    omega
  have htext : (Text.truncate s limit ellipsis).toList = _ := toList_truncate_of_lt h
  have hcut : Text.cutBefore (s.toList.take (room limit ellipsis))
      (s.toList.drop (room limit ellipsis)) <+: s.toList :=
    (prefix_cutBefore _ _).trans (List.take_prefix _ _)
  have hsplit := List.take_append_drop (room limit ellipsis) s.toList
  refine ⟨_, ?_, fun p hp => hp.length_cutBefore, fun hnone => ?_, fun q => ?_, ?_, fun i hi => ?_⟩
  · rw [htext, ← List.prefix_iff_eq_take.mp hcut]
  · rw [cutBefore_of_not_spans hnone hroom, List.length_take_of_le hroom]
  · by_cases hspans : ∃ p, Spans s.toList p (room limit ellipsis)
    · obtain ⟨p, hp⟩ := hspans
      rw [hp.length_cutBefore]
      exact hp.not_spans
    · have hnone := not_exists.mp hspans
      rw [cutBefore_of_not_spans hnone hroom, List.length_take_of_le hroom]
      exact hnone q
  · have hoffset := cutOffset_append (s.toList.take (room limit ellipsis))
      (s.toList.drop (room limit ellipsis))
    obtain ⟨rest, hrest⟩ := hcut
    rw [hsplit] at hoffset
    rw [Text.charOffset, hoffset, htext, Text.utf8_append, ← hrest, Text.utf8_append, hrest,
      List.take_left]
  · rw [Text.charOffset] at hi
    nth_rewrite 1 [← hsplit] at hi
    obtain ⟨a, ha, rfl⟩ := exists_prefix_of_mem_sliceOffsets hi
    rw [hsplit] at ha
    exact isValid_of_prefix ha

/-- A cut text keeps to its limit, and is the text itself where this does. Any other text is cut
where its room ends, or before the character reference around that position; the cut divides no
reference, and the bytes are divided between characters only. A second cut changes nothing. -/
theorem truncate_cut (s : String) (limit : ℕ) (ellipsis : Bool) :
    (Text.truncate s limit ellipsis).length ≤ limit ∧
      (s.length ≤ limit ∧ Text.truncate s limit ellipsis = s ∨
        limit < s.length ∧ ∃ k, CutAt s limit ellipsis k) ∧
      Text.truncate (Text.truncate s limit ellipsis) limit ellipsis =
        Text.truncate s limit ellipsis := by
  have hcases : s.length ≤ limit ∧ Text.truncate s limit ellipsis = s ∨
      limit < s.length ∧ ∃ k, CutAt s limit ellipsis k := by
    rcases Nat.lt_or_ge limit s.length with h | h
    · exact .inr ⟨h, exists_cutAt h ellipsis⟩
    · exact .inl ⟨h, truncate_of_le h⟩
  have hlength : (Text.truncate s limit ellipsis).length ≤ limit := by
    rcases hcases with ⟨h, heq⟩ | ⟨h, k, hk⟩
    · rwa [heq]
    · exact hk.length_le
  exact ⟨hlength, hcases, truncate_of_le hlength⟩

end TemplateLang.Escaping
