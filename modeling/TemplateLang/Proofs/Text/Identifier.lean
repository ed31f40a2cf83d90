import TemplateLang.Text.Segments

/-! Identifiers: a letter, then letters and digits. The underscore, the dollar sign and every
character beyond ASCII that is not white space count as letters. -/

namespace TemplateLang.Text

def isLetter (c : Char) : Bool :=
  c.isAlpha || c = '_' || c = '$' || (0x80 ≤ c.toNat && !isWhiteSpace c)

def isWordChar (c : Char) : Bool := isLetter c || c.isDigit

def isWord : List Char → Bool
  | [] => false
  | c :: rest => isLetter c && rest.all isWordChar

def isIdentifier (s : String) : Bool := isWord s.toList

variable {c : Char} {cs : List Char} {s : String}

theorem isDigit_iff : c.isDigit ↔ 48 ≤ c.toNat ∧ c.toNat ≤ 57 :=
  Bool.and_eq_true_iff.trans (and_congr decide_eq_true_iff decide_eq_true_iff)

theorem isLower_iff : c.isLower ↔ 97 ≤ c.toNat ∧ c.toNat ≤ 122 :=
  Bool.and_eq_true_iff.trans (and_congr decide_eq_true_iff decide_eq_true_iff)

/-- What is no capital letter is lower case already. -/
theorem toLower_eq_self (h : ¬ (65 ≤ c.toNat ∧ c.toNat ≤ 90)) : c.toLower = c := by
  apply dif_neg
  rwa [ge_iff_le, UInt32.le_iff_toNat_le, UInt32.le_iff_toNat_le]

theorem not_isLetter_of_isDigit (h : c.isDigit) : isLetter c = false := by
  rw [isDigit_iff] at h
  have halpha : ¬ c.isAlpha := by
    change ¬ (decide (65 ≤ c.val ∧ c.val ≤ 90) ||
      (decide (97 ≤ c.val) && decide (c.val ≤ 122))) = true
    simp only [UInt32.le_iff_toNat_le, Bool.or_eq_true, Bool.and_eq_true, decide_eq_true_eq]
    change ¬ ((65 ≤ c.toNat ∧ c.toNat ≤ 90) ∨ (97 ≤ c.toNat ∧ c.toNat ≤ 122))
    omega
  have hne : c ≠ '_' ∧ c ≠ '$' := by
    constructor <;> rintro rfl <;> revert h <;> decide
  simp [isLetter, halpha, hne, show ¬ 128 ≤ c.toNat by omega]

/-- A word begins with a letter and has no other characters than those of words. -/
theorem isWord_iff :
    isWord cs ↔ ∃ c rest, cs = c :: rest ∧ isLetter c ∧ ∀ d ∈ rest, isWordChar d := by
  cases cs with
  | nil => simp [isWord]
  | cons c rest => exact ⟨fun h => ⟨c, rest, rfl, by simpa [isWord] using h⟩,
      fun ⟨d, more, heq, h⟩ => by cases heq; simpa [isWord] using h⟩

/-! ### Dotted names -/

def isNameChar (c : Char) : Bool := isWordChar c || c = '.'

/-- A text of letters, digits and dots, such as identifiers with dots between them. -/
def isDotted (s : String) : Bool := s.toList.all isNameChar

theorem isNameChar_of_mem (h : isDotted s) (hc : c ∈ s.toList) : isNameChar c :=
  List.all_eq_true.mp h c hc

theorem isDotted_append {t : String} : isDotted (s ++ t) ↔ isDotted s ∧ isDotted t := by
  simp [isDotted]

end TemplateLang.Text
