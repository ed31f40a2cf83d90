import Mathlib.Data.Int.Basic
import TemplateLang.Proofs.Text.Identifier
import TemplateLang.Proofs.Text.Segments
import TemplateLang.Target.Java

/-! Names in generated Java. Every name is made of letters, digits and characters of the names that
it comes from; a class and a method have no dot in their names, so a qualified name is
taken apart at its last dot. -/

namespace TemplateLang

variable {c d : Char} {s ns callee : String} {package : Option String}

namespace Text

/-! ### Upper case -/

theorem isWordChar_toUpper :
    ∀ n < 128, isWordChar (Char.ofNat n).toUpper ∨ (Char.ofNat n).toUpper = Char.ofNat n := by
  decide +kernel

theorem isWordChar_caseExpansions :
    ∀ entry ∈ caseExpansions, ∀ n ∈ entry.2, isWordChar (Char.ofNat n) := by decide +kernel

theorem isWordChar_caseRuns :
    ∀ run ∈ caseRuns1 ++ caseRuns2, ∀ k ∈ List.range (run.high - run.low + 1),
      isWordChar (Char.ofNat (((run.low + k : ℕ) : ℤ) + run.distance).toNat) := by
  decide +kernel

/-- The upper case of a character is of letters, or the character itself. -/
theorem mem_upperCase (h : d ∈ upperCase c) : isWordChar d ∨ d = c := by
  unfold upperCase at h
  split at h
  · next hlt =>
    obtain rfl := List.mem_singleton.mp h
    simpa using isWordChar_toUpper c.toNat hlt
  · obtain ⟨n, hn, rfl⟩ := List.mem_map.mp h
    unfold upperCodePoints at hn
    split at hn
    · next heq => exact .inl (isWordChar_caseExpansions _ (List.mem_of_find?_eq_some heq) n hn)
    · split at hn
      · next run heq =>
        have hbounds := List.find?_some heq
        simp only [Bool.and_eq_true, decide_eq_true_eq] at hbounds
        obtain rfl := List.mem_singleton.mp hn
        have hrun := isWordChar_caseRuns run (List.mem_of_find?_eq_some heq) (c.toNat - run.low)
          (List.mem_range.mpr (by omega))
        rw [show run.low + (c.toNat - run.low) = c.toNat by omega] at hrun
        exact .inl hrun
      · obtain rfl := List.mem_singleton.mp hn
        exact .inr (Char.ofNat_toNat c)

theorem caseExpansions_ne_nil : ∀ entry ∈ caseExpansions, entry.2 ≠ [] := by decide

theorem upperCase_ne_nil (c : Char) : upperCase c ≠ [] := by
  unfold upperCase
  split
  · simp
  · rw [Ne, List.map_eq_nil_iff]
    unfold upperCodePoints
    split
    · next heq => exact caseExpansions_ne_nil _ (List.mem_of_find?_eq_some heq)
    · split <;> simp

/-- Only a slash has an upper case that begins with a slash. -/
theorem head?_upperCase_eq_slash {c : Char} : (upperCase c).head? = some '/' ↔ c = '/' := by
  constructor
  · intro h
    rcases mem_upperCase (List.mem_of_head? h) with hword | rfl
    · cases hword
    · rfl
  · rintro rfl
    decide

end Text

namespace Java

/-! ### Characters of names -/

theorem mem_capitalized {word : List Char} (h : d ∈ capitalized word) :
    Text.isWordChar d ∨ d ∈ word := by
  cases word with
  | nil => cases h
  | cons c rest =>
    rcases List.mem_append.mp h with h | h
    · rcases Text.mem_upperCase h with h | rfl
      · exact .inl h
      · exact .inr (List.mem_cons_self ..)
    · exact .inr (List.mem_cons_of_mem _ h)

/-- A class has no dot in its name. -/
theorem mem_className (h : d ∈ (className ns).toList) :
    Text.isWordChar d ∨ d ∈ ns.toList ∧ d ≠ '.' := by
  rw [className, String.toList_append, String.toList_ofList] at h
  rcases List.mem_append.mp h with h | h
  · obtain ⟨word, hword, hd⟩ := List.mem_flatMap.mp h
    exact (mem_capitalized hd).imp_right fun hd =>
      Text.mem_lastSegment (Text.mem_of_mem_splitChars hword hd)
  · have hall : "Templates".toList.all Text.isWordChar := by decide
    exact .inl (List.all_eq_true.mp hall d h)

theorem dot_not_mem_className (ns : String) : '.' ∉ (className ns).toList := fun h => by
  rcases mem_className h with h | h
  · cases h
  · exact h.2 rfl

theorem dot_not_mem_methodName (name : String) : '.' ∉ (methodName name).toList := fun h =>
  (Text.mem_lastSegment h).2 rfl

theorem isDotted_className (h : Text.isDotted ns) : Text.isDotted (className ns) := by
  refine List.all_eq_true.mpr fun d hd => ?_
  rcases mem_className hd with hd | hd
  · simp [Text.isNameChar, hd]
  · exact Text.isNameChar_of_mem h hd.1

theorem isDotted_methodName (h : Text.isDotted s) : Text.isDotted (methodName s) :=
  List.all_eq_true.mpr fun _ hd => Text.isNameChar_of_mem h (Text.mem_lastSegment hd).1

theorem isDotted_of_beforeLast? (h : Text.isDotted s) (ht : Text.beforeLast? '.' s = some ns) :
    Text.isDotted ns := by
  rcases Text.exists_last '.' s with hs | ⟨before, last, rfl, hlast⟩
  · rw [Text.beforeLast?_eq_none hs] at ht
    cases ht
  · rw [(Text.last_append hlast).1] at ht
    obtain rfl := Option.some.inj ht
    rw [Text.isDotted_append, Text.isDotted_append] at h
    exact h.1.1

end Java

end TemplateLang
