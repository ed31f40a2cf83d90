import TemplateLang.Proofs.Number.Reading
import TemplateLang.Target.Java

/-! Number literals of Java. A literal of digits alone is an integer, and no program may have one
outside the range of 32 bits; a literal with a point or an exponent is the nearest floating-point
number. A whole number is written without a point however large it is, so that Java reads what is
written for a number exactly when this is not whole, or in the range of integers. What Java
reads is the number. -/

namespace TemplateLang.Java

variable {negative : Bool} {n v : ℕ} {m : Magnitude} {whole behind : List Char}

/-! ### Literals -/

/-- The largest integer of 32 bits. -/
def maxInt : ℕ := 2147483647

/-- Whether an integer literal is in range. Behind a minus it may be one larger. -/
def fitsInt (negative : Bool) (n : ℕ) : Bool := n ≤ maxInt || (negative && n = maxInt + 1)

/-- Reads the digits of an integer literal. Behind a zero they would be octal. -/
def integer? (negative : Bool) (digits : List Char) : Option Number :=
  let n := Decimal.value (digits.map digitValue)
  if digits.head? = some '0' ∧ digits ≠ ['0'] then none
  else if fitsInt negative n then some (.ofInt (if negative then -n else n))
  else none

/-- Whether a digit before the exponent is not zero. -/
def isSignificant (text : List Char) : Bool :=
  (text.takeWhile fun c => c.isDigit || c = '.').any fun c => c.isDigit && c ≠ '0'

/-- Reads a floating-point literal. It must not be rounded to infinity, nor to zero unless it is
zero. -/
def floating? (negative : Bool) (text : List Char) : Option Number :=
  match Number.unsignedDecimal? negative text with
  | some (.finite negative m) =>
    if m.units = 0 && isSignificant text then none else some (.finite negative m)
  | _ => none

/-- Reads a number: a decimal literal without a suffix, with an optional minus. -/
def number? (text : List Char) : Option Number :=
  let (negative, digits) : Bool × List Char := match text with
    | '-' :: rest => (true, rest)
    | rest => (false, rest)
  if !digits.isEmpty && digits.all Char.isDigit then integer? negative digits
  else floating? negative digits

/-! ### Reading what is written -/

theorem ofRatio_one (negative : Bool) (h : n * Magnitude.one = m.units) :
    Number.ofRatio negative n 1 = .finite negative m := by
  rw [Number.ofRatio, Magnitude.round?_eq_some Nat.one_pos (h ▸ m.nearest_self)]
  rfl

theorem ofInt_natCast (n : ℕ) : Number.ofInt n = Number.ofRatio false n 1 := rfl

theorem ofInt_neg_succ (n : ℕ) : Number.ofInt (-(n + 1 : ℕ)) = Number.ofRatio true (n + 1) 1 := rfl

/-- An integer denotes the number of its magnitude. Zero has no sign. -/
theorem ofInt_equals (negative : Bool) (h : n * Magnitude.one = m.units) :
    (Number.ofInt (if negative && m.units ≠ 0 then -n else n)).equals (.finite negative m) := by
  by_cases hm : m.units = 0
  · rw [if_neg (by simp [hm]), ofInt_natCast, ofRatio_one false h]
    simp [Number.equals, hm]
  · cases negative with
    | false =>
      rw [if_neg (by simp), ofInt_natCast, ofRatio_one false h]
      simp [Number.equals]
    | true =>
      obtain ⟨k, rfl⟩ : ∃ k, n = k + 1 := Nat.exists_eq_succ_of_ne_zero (by
        rintro rfl
        exact hm (by rw [← h, Nat.zero_mul]))
      rw [if_pos (by simp [hm]), ofInt_neg_succ, ofRatio_one true h]
      simp [Number.equals]

/-- Digits without a point are read as an integer, and others as a floating-point number. -/
theorem number?_eq (h : IsDecimal whole behind) (signed : Bool) :
    number? ((if signed then ['-'] else []) ++ (whole ++ behind)) =
      if behind = [] then integer? signed whole else floating? signed (whole ++ behind) := by
  have hne : (whole ++ behind).isEmpty = false := by
    simp [h.ne_nil]
  have hall : (whole ++ behind).all Char.isDigit = decide (behind = []) := by
    have hwhole : whole.all Char.isDigit := List.all_eq_true.mpr h.digits
    rw [List.all_append, hwhole, Bool.true_and]
    rcases h.fraction with rfl | ⟨ds, rfl, -, -⟩
    · rfl
    · rfl
  have hread : ∀ negative : Bool,
      (if !(whole ++ behind).isEmpty && (whole ++ behind).all Char.isDigit then
        integer? negative (whole ++ behind) else floating? negative (whole ++ behind)) =
      if behind = [] then integer? negative whole else floating? negative (whole ++ behind) := by
    intro negative
    rw [hne, hall]
    by_cases hbehind : behind = []
    · simp [hbehind]
    · simp [hbehind]
  cases signed with
  | true => exact hread true
  | false =>
    rw [← hread false, if_neg Bool.false_ne_true, List.nil_append, number?]
    intro rest heq
    obtain ⟨c, more, rfl⟩ := List.exists_cons_of_ne_nil h.ne_nil
    have hc := h.digits c (List.mem_cons_self ..)
    obtain rfl := (List.cons.inj heq).1
    exact absurd hc (by decide)

theorem integer?_eq (h : Denotes whole [] v 0) (negative : Bool) :
    integer? negative whole =
      if fitsInt negative v then some (.ofInt (if negative then -v else v)) else none := by
  have hvalue := h.value_eq
  rw [List.drop_nil, List.append_nil] at hvalue
  rw [integer?, if_neg fun hzero => hzero.2 (h.no_leading_zero hzero.1), hvalue]

/-- A text other than that of zero is read as the magnitude in whose interval it lies. -/
theorem floating?_eq (h : Denotes whole behind v places) (hm : m.units ≠ 0)
    (hnearest : m.Nearest (v * Magnitude.one) (tenTo places)) (negative : Bool) :
    floating? negative (whole ++ behind) = some (.finite negative m) := by
  rw [floating?, Number.unsignedDecimal?_eq h hnearest]
  simp [hm]

/-! ### Numbers -/

theorem le_of_fitsInt (h : fitsInt negative n) : n ≤ maxInt + 1 := by
  simp only [fitsInt, Bool.or_eq_true, Bool.and_eq_true, decide_eq_true_eq] at h
  omega

/-- A whole number in the interval is out of range together with the magnitude, and in range it is
the magnitude. -/
theorem fitsInt_of_nearest (h : m.Nearest (v * Magnitude.one) 1)
    (hfloor : m.floor < Number.exactLimit → v = m.floor) (negative : Bool) :
    fitsInt negative v = fitsInt negative m.floor ∧ (fitsInt negative v → v = m.floor) := by
  by_cases hlt : m.floor < Number.exactLimit
  · exact ⟨by rw [hfloor hlt], fun _ => hfloor hlt⟩
  · -- beyond the limit neither is in range
    have hlimit : Number.exactLimit = 1000000000000000 := rfl
    have hmax : maxInt = 2147483647 := rfl
    have hle := h.floor_le
    have hv : ¬ fitsInt negative v := fun hfits => by
      have := le_of_fitsInt hfits
      omega
    have hm : ¬ fitsInt negative m.floor := fun hfits => by
      have := le_of_fitsInt hfits
      omega
    exact ⟨by simp [hv, hm], fun hfits => absurd hfits hv⟩

/-- The sign of zero does not matter to the range. -/
theorem fitsInt_sign (negative : Bool) (m : Magnitude) :
    fitsInt (negative && m.units ≠ 0) m.floor = fitsInt negative m.floor := by
  by_cases hm : m.units = 0
  · have hfloor : m.floor = 0 := by rw [Magnitude.floor, hm, Nat.zero_div]
    simp [fitsInt, hfloor]
  · simp [hm]

/-- Java reads the text of a whole number as this number, if that is in range. -/
theorem integer?_of_nearest (h : Denotes whole [] v 0)
    (hnearest : m.Nearest (v * Magnitude.one) 1)
    (hfloor : m.floor < Number.exactLimit → v = m.floor) (negative : Bool) :
    integer? (negative && m.units ≠ 0) whole =
      if fitsInt negative m.floor then
        some (.ofInt (if negative && m.units ≠ 0 then -m.floor else m.floor))
      else none := by
  obtain ⟨hfits, heq⟩ := fitsInt_of_nearest hnearest hfloor (negative && m.units ≠ 0)
  rw [integer?_eq h, ← fitsInt_sign, ← hfits]
  split_ifs with hv
  · rw [heq hv]
  · rw [heq hv]
  · rfl

/-- Java reads the text of a number as that number, and all texts but those of whole numbers that
are out of range. -/
theorem number?_sourceText (negative : Bool) (m : Magnitude) :
    (∀ n ∈ number? (Number.finite negative m).sourceText.toList,
      n.equals (.finite negative m)) ∧
    ((number? (Number.finite negative m).sourceText.toList).isSome ↔
      (m.isWhole → fitsInt negative m.floor)) := by
  obtain ⟨whole, behind, v, places, htext, hdenotes, hnearest, hbehind, hfloor⟩ :=
    Number.denotes_sourceText negative m
  rw [htext, number?_eq hdenotes.toIsDecimal]
  by_cases hwhole : m.isWhole
  · obtain rfl := hbehind.mpr hwhole
    obtain rfl := hdenotes.behind_eq_nil_iff.mp rfl
    have hunits : m.floor * Magnitude.one = m.units :=
      Nat.div_mul_cancel (Nat.dvd_of_mod_eq_zero (of_decide_eq_true hwhole))
    rw [if_pos rfl, integer?_of_nearest hdenotes hnearest (hfloor hwhole)]
    by_cases hfits : fitsInt negative m.floor
    · rw [if_pos hfits]
      constructor
      · intro n hn
        obtain rfl := Option.some.inj hn
        exact ofInt_equals negative hunits
      · simp [hfits]
    · simp [hfits, hwhole]
  · have hm : m.units ≠ 0 := by
      intro hm
      exact hwhole (decide_eq_true (by rw [hm, Nat.zero_mod]))
    rw [if_neg fun hnil => hwhole (hbehind.mp hnil), floating?_eq hdenotes hm hnearest]
    simp [Number.equals, hm, hwhole]

/-- What is generated for a number is read by Java as that number or not at all, and it is read
exactly when the number is not whole or is in the range of integers. -/
theorem number_literal_iff (package : Option String) (node : ℕ) (negative : Bool) (m : Magnitude) :
    ∃ f, (dialect package).expr node (.number (.finite negative m)) = .ok f ∧
      (∀ n ∈ number? f.text.toList, n.equals (.finite negative m)) ∧
      ((number? f.text.toList).isSome ↔ (m.isWhole → fitsInt negative m.floor)) :=
  ⟨_, rfl, number?_sourceText negative m⟩

/-- Three thousand million is written with its digits alone, and these are out of range. -/
theorem not_all_numbers_read :
    (dialect none).expr 0 (.number (.ofNat 3000000000)) = .ok (.atom "3000000000") ∧
      number? "3000000000".toList = none ∧
      ¬ ∀ n : Number, n.isFinite → ∃ f, (dialect none).expr 0 (.number n) = .ok f ∧
        ∃ n', number? f.text.toList = some n' ∧ n'.equals n := by
  have htext : (Number.ofNat 3000000000).sourceText = "3000000000" := by decide +kernel
  have hexpr : (dialect none).expr 0 (.number (.ofNat 3000000000)) = .ok (.atom "3000000000") := by
    rw [Dialect.expr, htext]
  have hnone : number? "3000000000".toList = none := by decide +kernel
  refine ⟨hexpr, hnone, fun hall => ?_⟩
  obtain ⟨f, hf, n, hn, -⟩ := hall (.ofNat 3000000000) (by decide +kernel)
  obtain rfl := Except.ok.inj (hexpr.symm.trans hf)
  cases hnone.symm.trans hn

end TemplateLang.Java
