import Mathlib.Data.List.Basic
import Mathlib.Data.List.TakeWhile
import TemplateLang.Text.Offset

/-! Bytes of texts. A character below 128 is one byte, and all bytes of any other character are
128 or more. A scan of bytes that looks for characters below 128 therefore finds what a scan of
the characters finds, and every offset at which it stops lies between two characters. -/

namespace TemplateLang.Text

variable {p : Char → Bool} {q : UInt8 → Bool} {s t : List Char} {c : Char}

theorem utf8_append (s t : List Char) : utf8 (s ++ t) = utf8 s ++ utf8 t := List.flatMap_append

theorem utf8_cons (c : Char) (s : List Char) : utf8 (c :: s) = String.utf8EncodeChar c ++ utf8 s :=
  List.flatMap_cons

/-- A character is one small byte or made of large ones. -/
theorem utf8EncodeChar_cases (c : Char) :
    c.toNat < 128 ∧ String.utf8EncodeChar c = [UInt8.ofNat c.toNat] ∨
      128 ≤ c.toNat ∧ String.utf8EncodeChar c ≠ [] ∧
        ∀ b ∈ String.utf8EncodeChar c, 128 ≤ b.toNat := by
  have hbound : c.toNat < 1114112 := by
    rcases c.valid with h | ⟨-, h⟩
    · exact Nat.lt_trans h (by decide)
    · exact h
  have hval : c.val.toNat = c.toNat := rfl
  fun_cases String.utf8EncodeChar c with
  | case1 v h => exact .inl ⟨by omega, rfl⟩
  | case2 v h | case3 v h | case4 v h =>
    refine .inr ⟨by omega, by simp, ?_⟩
    simp
    omega

theorem length_utf8 (s : List Char) : (utf8 s).length = (String.ofList s).utf8ByteSize := by
  rw [← String.size_toByteArray, String.toByteArray_ofList, List.utf8Encode,
    List.size_toByteArray, utf8]

/-! ### Scans -/

/-- The bytes that pass the one test are the characters that pass the other. -/
structure Marks (p : Char → Bool) (q : UInt8 → Bool) : Prop where
  small : ∀ n < 128, q (UInt8.ofNat n) = p (Char.ofNat n)
  char_lt : ∀ c, p c → c.toNat < 128
  byte_lt : ∀ b, q b → b.toNat < 128

namespace Marks

theorem of_true (h : Marks p q) (hc : p c) :
    ∃ b, String.utf8EncodeChar c = [b] ∧ q b := by
  rcases utf8EncodeChar_cases c with ⟨hlt, hbytes⟩ | ⟨hle, -⟩
  · refine ⟨_, hbytes, ?_⟩
    rw [h.small _ hlt, Char.ofNat_toNat]
    exact hc
  · have := h.char_lt c hc
    omega

theorem of_false (h : Marks p q) (hc : p c = false) :
    String.utf8EncodeChar c ≠ [] ∧ ∀ b ∈ String.utf8EncodeChar c, q b = false := by
  rcases utf8EncodeChar_cases c with ⟨hlt, hbytes⟩ | ⟨hle, hne, hbytes⟩
  · rw [hbytes]
    refine ⟨List.cons_ne_nil _ _, fun b hb => ?_⟩
    obtain rfl := List.mem_singleton.mp hb
    rw [h.small _ hlt, Char.ofNat_toNat]
    exact hc
  · refine ⟨hne, fun b hb => ?_⟩
    by_contra hq
    have := h.byte_lt b (by simpa using hq)
    have := hbytes b hb
    omega

/-- The bytes of characters that pass are as many as the characters, and all pass. -/
theorem utf8_of_forall (h : Marks p q) (hs : ∀ c ∈ s, p c) :
    (∀ b ∈ utf8 s, q b) ∧ (utf8 s).length = s.length := by
  induction s with
  | nil => simp [utf8]
  | cons c s ih =>
    obtain ⟨b, hbytes, hb⟩ := h.of_true (hs c (List.mem_cons_self ..))
    obtain ⟨hall, hlength⟩ := ih fun d hd => hs d (List.mem_cons_of_mem _ hd)
    rw [utf8_cons, hbytes, List.singleton_append, List.forall_mem_cons, List.length_cons, hlength]
    exact ⟨⟨hb, hall⟩, rfl⟩

theorem head?_utf8 (h : Marks p q) (s : List Char) : (utf8 s).head?.any q = s.head?.any p := by
  cases s with
  | nil => rfl
  | cons c s =>
    rw [utf8_cons]
    cases hc : p c with
    | true =>
      obtain ⟨b, hbytes, hb⟩ := h.of_true hc
      simp [hbytes, hb, hc]
    | false =>
      obtain ⟨hne, hb⟩ := h.of_false hc
      rw [List.head?_append_of_ne_nil _ hne, List.head?_eq_some_head hne]
      simp [hc, hb _ (List.head_mem hne)]

theorem forall_utf8_iff (h : Marks p q) (s : List Char) :
    (∀ b ∈ utf8 s, q b) ↔ ∀ c ∈ s, p c := by
  refine ⟨fun hall c hc => ?_, fun hs => (h.utf8_of_forall hs).1⟩
  by_contra hp
  obtain ⟨hne, hb⟩ := h.of_false (c := c) (by simpa using hp)
  have hmem := hall _ (List.mem_flatMap.mpr ⟨c, hc, List.head_mem hne⟩)
  rw [hb _ (List.head_mem hne)] at hmem
  cases hmem

/-- Bytes are divided where the characters are. -/
theorem span_utf8 (h : Marks p q) (s : List Char) :
    (utf8 s).takeWhile q = utf8 (s.takeWhile p) ∧ (utf8 s).dropWhile q = utf8 (s.dropWhile p) := by
  have htake := (h.utf8_of_forall fun c (hc : c ∈ s.takeWhile p) => List.mem_takeWhile_imp hc).1
  have hstop : (utf8 (s.dropWhile p)).head?.any q = false := by
    rw [h.head?_utf8]
    cases hrest : s.dropWhile p with
    | nil => rfl
    | cons c rest =>
      have hhead := List.head?_dropWhile_not p s
      rw [hrest] at hhead
      simpa using hhead
  have hbytes : utf8 s = utf8 (s.takeWhile p) ++ utf8 (s.dropWhile p) := by
    rw [← utf8_append, List.takeWhile_append_dropWhile]
  rw [hbytes, List.takeWhile_append_of_pos htake, List.dropWhile_append_of_pos htake]
  cases hrest : utf8 (s.dropWhile p) with
  | nil => simp
  | cons b rest =>
    rw [hrest] at hstop
    have hb : q b = false := by simpa using hstop
    simp [hb]

end Marks

theorem marks_reference : Marks isReferenceChar isReferenceByte := by
  refine ⟨by decide, fun c hc => ?_, fun b hb => ?_⟩
  · simp only [isReferenceChar, isAsciiAlphanumeric, Bool.or_eq_true, Bool.and_eq_true,
      decide_eq_true_eq, Char.le_def, UInt32.le_iff_toNat_le] at hc
    rcases hc with ((⟨-, h⟩ | ⟨-, h⟩) | ⟨-, h⟩) | rfl
    · exact Nat.lt_of_le_of_lt h (by decide)
    · exact Nat.lt_of_le_of_lt h (by decide)
    · exact Nat.lt_of_le_of_lt h (by decide)
    · decide
  · simp only [isReferenceByte, Bool.or_eq_true, Bool.and_eq_true, decide_eq_true_eq,
      UInt8.le_iff_toNat_le] at hb
    rcases hb with ((⟨-, h⟩ | ⟨-, h⟩) | ⟨-, h⟩) | rfl
    · exact Nat.lt_of_le_of_lt h (by decide)
    · exact Nat.lt_of_le_of_lt h (by decide)
    · exact Nat.lt_of_le_of_lt h (by decide)
    · decide

theorem marks_ampersand : Marks (· = '&') (· = ampersandByte) := by
  refine ⟨by decide, fun c hc => ?_, fun b hb => ?_⟩
  · obtain rfl := of_decide_eq_true hc
    decide
  · obtain rfl := of_decide_eq_true hb
    decide

theorem marks_semicolon : Marks (· = ';') (· = semicolonByte) := by
  refine ⟨by decide, fun c hc => ?_, fun b hb => ?_⟩
  · obtain rfl := of_decide_eq_true hc
    decide
  · obtain rfl := of_decide_eq_true hb
    decide

/-! ### References -/

theorem lastAmpersand?_eq_none {bytes : List UInt8} (h : ampersandByte ∉ bytes) :
    lastAmpersand? bytes = none := by
  induction bytes with
  | nil => rfl
  | cons b bytes ih =>
    rw [List.mem_cons, not_or] at h
    rw [lastAmpersand?, ih h.2]
    exact if_neg (Ne.symm h.1)

theorem lastAmpersand?_append {before name : List UInt8} (h : ampersandByte ∉ name) :
    lastAmpersand? (before ++ ampersandByte :: name) = some before.length := by
  induction before with
  | nil =>
    rw [List.nil_append, lastAmpersand?, lastAmpersand?_eq_none h]
    exact if_pos rfl
  | cons b before ih => rw [List.cons_append, lastAmpersand?, ih, List.length_cons]

theorem ampersandByte_not_mem (h : '&' ∉ s) : ampersandByte ∉ utf8 s := by
  intro hm
  obtain ⟨c, hc, hb⟩ := List.mem_flatMap.mp hm
  have hne : c ≠ '&' := fun he => h (he ▸ hc)
  have hfalse := (marks_ampersand.of_false (c := c) (by simpa using hne)).2 _ hb
  simp at hfalse

theorem lastAmpersand?_utf8 {before name : List Char} (h : '&' ∉ name) :
    lastAmpersand? (utf8 (before ++ '&' :: name)) = some (utf8 before).length := by
  rw [utf8_append]
  exact lastAmpersand?_append (ampersandByte_not_mem h)

/-- The byte behind those that pass is a semicolon where the character behind those that pass is
one. -/
theorem getElem?_takeWhile_iff (s : List Char) :
    (utf8 s)[((utf8 s).takeWhile isReferenceByte).length]? = some semicolonByte ↔
      (s.dropWhile isReferenceChar).head? = some ';' := by
  have hiff : ∀ (x : Option Char) (y : Option UInt8),
      y.any (· = semicolonByte) = x.any (· = ';') → (y = some semicolonByte ↔ x = some ';') := by
    rintro (- | c) (- | b) <;> simp
  have hbehind : (utf8 s)[((utf8 s).takeWhile isReferenceByte).length]? =
      ((utf8 s).dropWhile isReferenceByte).head? := by
    rw [List.head?_eq_getElem?]
    conv_rhs => rw [← Nat.sub_self ((utf8 s).takeWhile isReferenceByte).length]
    rw [← List.getElem?_append_right le_rfl, List.takeWhile_append_dropWhile]
  rw [hbehind, (marks_reference.span_utf8 s).2]
  exact hiff _ _ (marks_semicolon.head?_utf8 _)

/-- The scan of bytes finds the ampersand of a reference where the characters have one. -/
theorem referenceStart?_append {before name : List Char} (h : '&' ∉ name) (rest : List Char) :
    referenceStart? (utf8 (before ++ '&' :: name ++ rest)) (utf8 (before ++ '&' :: name)).length =
      if name.all isReferenceChar && completesReference name rest then
        some (utf8 before).length
      else none := by
  have hname : (utf8 (before ++ '&' :: name)).drop ((utf8 before).length + 1) = utf8 name := by
    rw [utf8_append, List.drop_length_add_append]
    rfl
  rw [referenceStart?, utf8_append (before ++ '&' :: name) rest, List.take_left, List.drop_left,
    lastAmpersand?_utf8 h]
  simp only [hname]
  refine if_congr ?_ rfl rfl
  simp only [Bool.and_eq_true, decide_eq_true_eq, List.all_eq_true, completesReference,
    marks_reference.forall_utf8_iff, getElem?_takeWhile_iff, and_assoc]
  refine and_congr_right fun hall => ?_
  rw [(marks_reference.utf8_of_forall hall).2, (marks_reference.span_utf8 rest).1,
    (marks_reference.utf8_of_forall fun c hc => List.mem_takeWhile_imp hc).2]

/-- Without an ampersand the scan finds nothing. -/
theorem referenceStart?_eq_none {kept : List Char} (h : '&' ∉ kept) (rest : List Char) :
    referenceStart? (utf8 (kept ++ rest)) (utf8 kept).length = none := by
  rw [referenceStart?, utf8_append, List.take_left,
    lastAmpersand?_eq_none (ampersandByte_not_mem h)]

end TemplateLang.Text
