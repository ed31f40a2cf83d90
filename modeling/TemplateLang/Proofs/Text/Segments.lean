import Mathlib.Data.List.Basic
import Mathlib.Data.List.TakeWhile
import TemplateLang.Text.Segments

/-! Texts of segments. A text is divided at its first separator into a segment and the rest, and at
its last separator into what stands before and the last segment; texts that are joined are the
first one and then each of the others behind a separator. -/

namespace TemplateLang.Text

variable {separator c : Char} {s t : String}

/-! ### Division -/

theorem splitChars_nil (separator : Char) : splitChars separator [] = [[]] := rfl

theorem splitChars_cons_self (separator : Char) (cs : List Char) :
    splitChars separator (separator :: cs) = [] :: splitChars separator cs := if_pos rfl

/-- Any other character goes to the first segment of what follows. -/
theorem splitChars_cons_of_ne {cs first : List Char} {more : List (List Char)}
    (hc : c ≠ separator) (h : splitChars separator cs = first :: more) :
    splitChars separator (c :: cs) = (c :: first) :: more := by
  rw [splitChars, if_neg hc, h]

theorem splitChars_ne_nil (separator : Char) (cs : List Char) : splitChars separator cs ≠ [] := by
  induction cs with
  | nil => exact List.cons_ne_nil _ _
  | cons c cs ih =>
    by_cases hc : c = separator
    · rw [hc, splitChars_cons_self]
      exact List.cons_ne_nil _ _
    · obtain ⟨first, more, hsplit⟩ := List.exists_cons_of_ne_nil ih
      rw [splitChars_cons_of_ne hc hsplit]
      exact List.cons_ne_nil _ _

theorem splitChars_append {xs : List Char} (h : separator ∉ xs) (rest : List Char) :
    splitChars separator (xs ++ separator :: rest) = xs :: splitChars separator rest := by
  induction xs with
  | nil => exact splitChars_cons_self ..
  | cons c xs ih =>
    rw [List.mem_cons, not_or] at h
    exact splitChars_cons_of_ne (Ne.symm h.1) (ih h.2)

/-- The characters of a segment are characters of the text. -/
theorem mem_of_mem_splitChars {cs segment : List Char} (h : segment ∈ splitChars separator cs)
    (hc : c ∈ segment) : c ∈ cs := by
  induction cs generalizing segment with
  | nil =>
    obtain rfl := List.mem_singleton.mp h
    cases hc
  | cons d cs ih =>
    by_cases hd : d = separator
    · rw [hd, splitChars_cons_self] at h
      rcases List.mem_cons.mp h with rfl | h
      · cases hc
      · exact List.mem_cons_of_mem _ (ih h hc)
    · obtain ⟨first, more, hsplit⟩ :=
        List.exists_cons_of_ne_nil (splitChars_ne_nil separator cs)
      rw [splitChars_cons_of_ne hd hsplit] at h
      rcases List.mem_cons.mp h with rfl | h
      · rcases List.mem_cons.mp hc with rfl | hc
        · exact List.mem_cons_self ..
        · exact List.mem_cons_of_mem _ (ih (hsplit ▸ List.mem_cons_self ..) hc)
      · exact List.mem_cons_of_mem _ (ih (hsplit ▸ List.mem_cons_of_mem _ h) hc)

theorem splitChars_of_not_mem {cs : List Char} (h : separator ∉ cs) :
    splitChars separator cs = [cs] := by
  induction cs with
  | nil => exact splitChars_nil separator
  | cons c cs ih =>
    rw [List.mem_cons, not_or] at h
    exact splitChars_cons_of_ne (Ne.symm h.1) (ih h.2)

/-- A separator divides a text wherever it stands. -/
theorem splitChars_append_cons (xs rest : List Char) :
    splitChars separator (xs ++ separator :: rest) =
      splitChars separator xs ++ splitChars separator rest := by
  induction xs with
  | nil => rw [List.nil_append, splitChars_cons_self, splitChars_nil, List.singleton_append]
  | cons c xs ih =>
    rw [List.cons_append]
    by_cases hc : c = separator
    · rw [hc, splitChars_cons_self, splitChars_cons_self, ih, List.cons_append]
    · obtain ⟨first, more, hsplit⟩ := List.exists_cons_of_ne_nil (splitChars_ne_nil separator xs)
      rw [hsplit, List.cons_append] at ih
      rw [splitChars_cons_of_ne hc ih, splitChars_cons_of_ne hc hsplit, List.cons_append]

/-- No segment has a separator. -/
theorem not_mem_of_mem_splitChars {cs segment : List Char}
    (h : segment ∈ splitChars separator cs) : separator ∉ segment := by
  induction cs generalizing segment with
  | nil =>
    obtain rfl := List.mem_singleton.mp h
    exact List.not_mem_nil
  | cons c cs ih =>
    by_cases hc : c = separator
    · rw [hc, splitChars_cons_self] at h
      rcases List.mem_cons.mp h with rfl | h
      · exact List.not_mem_nil
      · exact ih h
    · obtain ⟨first, more, hsplit⟩ := List.exists_cons_of_ne_nil (splitChars_ne_nil separator cs)
      rw [splitChars_cons_of_ne hc hsplit] at h
      rw [hsplit] at ih
      rcases List.mem_cons.mp h with rfl | h
      · exact List.not_mem_cons_of_ne_of_not_mem (Ne.symm hc) (ih (List.mem_cons_self ..))
      · exact ih (List.mem_cons_of_mem _ h)

/-- A text is its first segment and the others, each behind a separator. -/
theorem eq_of_splitChars {cs first : List Char} {more : List (List Char)}
    (h : splitChars separator cs = first :: more) :
    cs = first ++ more.flatMap (separator :: ·) := by
  induction cs generalizing first more with
  | nil =>
    obtain ⟨rfl, rfl⟩ := List.cons.inj h
    rfl
  | cons c cs ih =>
    obtain ⟨second, rest, hsplit⟩ := List.exists_cons_of_ne_nil (splitChars_ne_nil separator cs)
    have hcs := ih hsplit
    by_cases hc : c = separator
    · rw [hc, splitChars_cons_self, hsplit] at h
      obtain ⟨rfl, rfl⟩ := List.cons.inj h
      rw [List.nil_append, List.flatMap_cons, List.cons_append, ← hcs, hc]
    · rw [splitChars_cons_of_ne hc hsplit] at h
      obtain ⟨rfl, rfl⟩ := List.cons.inj h
      rw [List.cons_append, ← hcs]

/-- Texts that agree, each with a segment before its end or its first separator, have the same
segment there. -/
theorem append_inj_of_not_mem {xs xs' rest rest' : List Char} (hxs : separator ∉ xs)
    (hxs' : separator ∉ xs') (hrest : ∀ c ∈ rest.head?, c = separator)
    (hrest' : ∀ c ∈ rest'.head?, c = separator) (h : xs ++ rest = xs' ++ rest') :
    xs = xs' ∧ rest = rest' := by
  induction xs generalizing xs' with
  | nil =>
    cases xs' with
    | nil => exact ⟨rfl, h⟩
    | cons c xs' =>
      rw [List.nil_append] at h
      obtain rfl := hrest c (by simp [h])
      exact absurd (List.mem_cons_self ..) hxs'
  | cons c xs ih =>
    cases xs' with
    | nil =>
      rw [List.nil_append] at h
      obtain rfl := hrest' c (by simp [← h])
      exact absurd (List.mem_cons_self ..) hxs
    | cons c' xs' =>
      rw [List.mem_cons, not_or] at hxs hxs'
      obtain ⟨rfl, htails⟩ := List.cons.inj h
      obtain ⟨rfl, hrests⟩ := ih hxs.2 hxs'.2 htails
      exact ⟨rfl, hrests⟩

/-! ### The last segment -/

/-- The last segment has no separator, and the characters of the text. -/
theorem mem_lastSegment (h : c ∈ (lastSegment separator s).toList) :
    c ∈ s.toList ∧ c ≠ separator := by
  rw [lastSegment, String.toList_ofList, List.mem_reverse] at h
  exact ⟨by simpa using (List.takeWhile_sublist _).mem h, by simpa using List.mem_takeWhile_imp h⟩

theorem beforeLast?_eq_none (h : separator ∉ s.toList) : beforeLast? separator s = none := by
  have hdrop : s.toList.reverse.dropWhile (· ≠ separator) = [] := by
    rw [List.dropWhile_eq_nil_iff]
    intro c hc
    simp only [decide_eq_true_eq]
    rintro rfl
    exact h (List.mem_reverse.mp hc)
  rw [beforeLast?, hdrop]

theorem lastSegment_eq_self (h : separator ∉ s.toList) : lastSegment separator s = s := by
  have htake : s.toList.reverse.takeWhile (· ≠ separator) = s.toList.reverse := by
    rw [List.takeWhile_eq_self_iff]
    intro c hc
    simp only [decide_eq_true_eq]
    rintro rfl
    exact h (List.mem_reverse.mp hc)
  rw [lastSegment, htake, List.reverse_reverse, String.ofList_toList]

/-- A text whose last separator stands between `s` and `t`. -/
theorem last_append (h : separator ∉ t.toList) :
    beforeLast? separator (s ++ separator.toString ++ t) = some s ∧
      lastSegment separator (s ++ separator.toString ++ t) = t := by
  have hchars : (s ++ separator.toString ++ t).toList.reverse =
      t.toList.reverse ++ separator :: s.toList.reverse := by
    simp
  have hall : ∀ c ∈ t.toList.reverse, decide (c ≠ separator) := by
    intro c hc
    simp only [decide_eq_true_eq]
    rintro rfl
    exact h (List.mem_reverse.mp hc)
  constructor
  · rw [beforeLast?, hchars, List.dropWhile_append_of_pos hall,
      List.dropWhile_cons_of_neg (by simp)]
    simp
  · rw [lastSegment, hchars, List.takeWhile_append_of_pos hall,
      List.takeWhile_cons_of_neg (by simp)]
    simp

/-- A text has no separator, or is divided at the last one. -/
theorem exists_last (separator : Char) (s : String) : separator ∉ s.toList ∨
    ∃ before last, s = before ++ separator.toString ++ last ∧ separator ∉ last.toList := by
  by_cases h : separator ∈ s.toList
  · right
    obtain ⟨last, before, hs, hlast⟩ := List.eq_append_cons_of_mem (List.mem_reverse.mpr h)
    refine ⟨String.ofList before.reverse, String.ofList last.reverse, ?_, by simpa using hlast⟩
    have hchars := congrArg List.reverse hs
    rw [List.reverse_reverse] at hchars
    rw [← String.toList_inj, hchars]
    simp
  · exact .inl h

/-- A text is what stands before its last separator, the separator, and the last segment. -/
theorem eq_append_of_beforeLast? (h : beforeLast? separator s = some t) :
    s = t ++ separator.toString ++ lastSegment separator s := by
  rcases exists_last separator s with hs | ⟨before, last, rfl, hlast⟩
  · rw [beforeLast?_eq_none hs] at h
    cases h
  · rw [(last_append hlast).1] at h
    rw [(last_append hlast).2, Option.some.inj h]

/-! ### Joined texts -/

/-- A text begins as its first part does, unless this is empty. -/
theorem head?_toList_append (s t : String) :
    (s ++ t).toList.head? = if s = "" then t.toList.head? else s.toList.head? := by
  rw [String.toList_append]
  split_ifs with h
  · subst h
    rfl
  · exact List.head?_append_of_ne_nil _ fun hnil => h (String.toList_eq_nil_iff.mp hnil)

/-- The first one of texts, and before each of the others the separator. -/
theorem toList_join_cons (separator s : String) (rest : List String) :
    (join separator (s :: rest)).toList =
      s.toList ++ rest.flatMap fun t => separator.toList ++ t.toList := by
  rw [join, String.toList_intercalate, List.map_cons]
  induction rest generalizing s with
  | nil => simp
  | cons t rest ih =>
    rw [List.map_cons, List.intercalate_cons_cons, ih, List.flatMap_cons]
    simp

/-! ### Segments of texts -/

theorem split_ne_nil (separator : Char) (s : String) : split separator s ≠ [] := by
  rw [split, Ne, List.map_eq_nil_iff]
  exact splitChars_ne_nil separator s.toList

theorem split_of_not_mem (h : separator ∉ s.toList) : split separator s = [s] := by
  rw [split, splitChars_of_not_mem h, List.map_singleton, String.ofList_toList]

theorem split_append_separator (s t : String) :
    split separator (s ++ separator.toString ++ t) = split separator s ++ split separator t := by
  have hchars : (s ++ separator.toString ++ t).toList = s.toList ++ separator :: t.toList := by
    simp
  rw [split, hchars, splitChars_append_cons, List.map_append]
  rfl

theorem not_mem_of_mem_split (h : t ∈ split separator s) : separator ∉ t.toList := by
  obtain ⟨segment, hsegment, rfl⟩ := List.mem_map.mp h
  rw [String.toList_ofList]
  exact not_mem_of_mem_splitChars hsegment

theorem mem_of_mem_split (h : t ∈ split separator s) (hc : c ∈ t.toList) : c ∈ s.toList := by
  obtain ⟨segment, hsegment, rfl⟩ := List.mem_map.mp h
  rw [String.toList_ofList] at hc
  exact mem_of_mem_splitChars hsegment hc

/-- Joined texts have the segments of the texts. -/
theorem split_join {texts : List String} (h : texts ≠ []) :
    split separator (join separator.toString texts) = texts.flatMap (split separator) := by
  induction texts with
  | nil => exact absurd rfl h
  | cons s texts ih =>
    cases texts with
    | nil => rw [join, String.intercalate_singleton, List.flatMap_singleton]
    | cons t texts =>
      rw [join, String.intercalate_cons_cons, split_append_separator, List.flatMap_cons]
      exact congrArg _ (ih (List.cons_ne_nil _ _))

/-- Texts without separators are the segments of the text that they are joined to. -/
theorem split_join_of_not_mem {texts : List String} (h : ∀ t ∈ texts, separator ∉ t.toList)
    (hne : texts ≠ []) : split separator (join separator.toString texts) = texts := by
  have hsplit : texts.flatMap (split separator) = texts.flatMap fun t => [t] :=
    List.flatMap_congr fun t ht => split_of_not_mem (h t ht)
  rw [split_join hne, hsplit, List.flatMap_singleton']

/-- A text is made of its segments. -/
theorem join_split (separator : Char) (s : String) :
    join separator.toString (split separator s) = s := by
  obtain ⟨first, more, hsplit⟩ :=
    List.exists_cons_of_ne_nil (splitChars_ne_nil separator s.toList)
  rw [← String.toList_inj, split, hsplit, List.map_cons, toList_join_cons, List.flatMap_map,
    eq_of_splitChars hsplit]
  simp

theorem split_injective (separator : Char) : Function.Injective (split separator) := by
  intro s t h
  rw [← join_split separator s, h, join_split]

/-- What follows a text without a separator goes to the last segment. -/
theorem exists_split_append (h : separator ∉ t.toList) (s : String) :
    ∃ before last, split separator s = before ++ [last] ∧
      split separator (s ++ t) = before ++ [last ++ t] := by
  rcases exists_last separator s with hs | ⟨before, last, rfl, hlast⟩
  · refine ⟨[], s, split_of_not_mem hs, split_of_not_mem ?_⟩
    rw [String.toList_append, List.mem_append, not_or]
    exact ⟨hs, h⟩
  · refine ⟨split separator before, last, ?_, ?_⟩
    · rw [split_append_separator, split_of_not_mem hlast]
    · have hnot : separator ∉ (last ++ t).toList := by
        rw [String.toList_append, List.mem_append, not_or]
        exact ⟨hlast, h⟩
      have hassoc : before ++ separator.toString ++ last ++ t =
          before ++ separator.toString ++ (last ++ t) := String.append_assoc
      rw [hassoc, split_append_separator, split_of_not_mem hnot]

end TemplateLang.Text
