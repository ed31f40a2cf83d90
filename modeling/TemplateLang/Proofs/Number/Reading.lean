import Mathlib.Data.List.TakeWhile
import TemplateLang.Proofs.Number.Nearest
import TemplateLang.Proofs.Text.Identifier

/-! Reading the text of a number. The text of a finite number denotes a decimal in the interval of
its magnitude, so the number is read back from it, but for the sign of zero. So numbers have the
same text exactly when they are equal. -/

namespace TemplateLang

variable {m : Magnitude} {n p q p' q' c v places : ℕ} {step : ℤ} {negative : Bool}

/-! ### Values of digits -/

namespace Decimal

theorem value_singleton (d : ℕ) : value [d] = d := by simp [value]

theorem value_digitsOnto (n : ℕ) (rest : List ℕ) :
    value (digitsOnto n rest) = n * tenTo rest.length + value rest ∧
      (digitsOnto n rest).length = length n + rest.length := by
  induction n using Nat.strongRecOn generalizing rest with
  | ind n ih =>
    rw [digitsOnto, length]
    split
    · next hlt =>
      have hcons : n :: rest = [n] ++ rest := rfl
      rw [hcons, value_append, value_singleton, List.length_append, List.length_singleton]
      exact ⟨rfl, rfl⟩
    · obtain ⟨hvalue, hlength⟩ := ih (n / 10) (by omega) (n % 10 :: rest)
      have hcons : n % 10 :: rest = [n % 10] ++ rest := rfl
      rw [hvalue, hlength, hcons, value_append, value_singleton, List.length_append,
        List.length_singleton, tenTo_add]
      refine ⟨?_, by omega⟩
      have hten : tenTo 1 = 10 := rfl
      have hdiv : n / 10 * 10 + n % 10 = n := Nat.div_add_mod' n 10
      calc n / 10 * (tenTo 1 * tenTo rest.length) + (n % 10 * tenTo rest.length + value rest)
          = (n / 10 * 10 + n % 10) * tenTo rest.length + value rest := by rw [hten]; ring
        _ = n * tenTo rest.length + value rest := by rw [hdiv]

/-- A scaled number is the digits of its decimal and the zeros that these leave out. -/
theorem exists_zeros (c : ℕ) (step : ℤ) : ∃ k : ℕ,
    value (ofScaled c step).digits * tenTo k = c ∧ (ofScaled c step).scale = step + k := by
  obtain ⟨hvalue, hlength⟩ := value_digitsOnto c []
  have hzeros : ∀ d ∈ (digitsOnto c []).reverse.takeWhile (· = 0), d = 0 := fun d hd => by
    simpa using List.mem_takeWhile_imp hd
  have hsplit : digitsOnto c [] = (ofScaled c step).digits ++
      List.replicate ((digitsOnto c []).reverse.takeWhile (· = 0)).length 0 := by
    have happend := congrArg List.reverse
      (List.takeWhile_append_dropWhile (p := (· = 0)) (l := (digitsOnto c []).reverse))
    rw [List.reverse_append, List.reverse_reverse, List.eq_replicate_of_mem hzeros,
      List.reverse_replicate] at happend
    exact happend.symm
  generalize ((digitsOnto c []).reverse.takeWhile (· = 0)).length = k at hsplit
  refine ⟨k, ?_, ?_⟩
  · rw [hsplit, value_append, value_replicate_zero, List.length_replicate] at hvalue
    simpa [tenTo] using hvalue
  · rw [hsplit, List.length_append, List.length_replicate] at hlength
    rw [scale]
    change step + length c - 1 + 1 - _ = _
    simp only [List.length_nil] at hlength
    omega

theorem value_lt {digits : List ℕ} (h : ∀ d ∈ digits, d < 10) :
    value digits < tenTo digits.length := by
  induction digits with
  | nil => decide
  | cons d ds ih =>
    have hcons : d :: ds = [d] ++ ds := rfl
    have hds := ih fun e he => h e (List.mem_cons_of_mem d he)
    have hd := h d (List.mem_cons_self ..)
    rw [hcons, value_append, value_singleton, List.length_append, List.length_singleton, tenTo_add]
    calc d * tenTo ds.length + value ds < d * tenTo ds.length + tenTo ds.length := by omega
      _ = (d + 1) * tenTo ds.length := by ring
      _ ≤ tenTo 1 * tenTo ds.length := Nat.mul_le_mul_right _ hd

theorem le_value {d : ℕ} (hd : d ≠ 0) (ds : List ℕ) : tenTo ds.length ≤ value (d :: ds) := by
  have hcons : d :: ds = [d] ++ ds := rfl
  rw [hcons, value_append, value_singleton]
  calc tenTo ds.length = 1 * tenTo ds.length := (Nat.one_mul _).symm
    _ ≤ d * tenTo ds.length := Nat.mul_le_mul_right _ (Nat.pos_of_ne_zero hd)
    _ ≤ d * tenTo ds.length + value ds := Nat.le_add_right _ _

theorem value_dropWhile (digits : List ℕ) : value (digits.dropWhile (· = 0)) = value digits := by
  induction digits with
  | nil => rfl
  | cons d ds ih =>
    rw [List.dropWhile_cons]
    split_ifs with hd
    · obtain rfl : d = 0 := by simpa using hd
      exact ih
    · rfl

end Decimal

/-! ### Reading digits -/

namespace Magnitude

/-- The interval has quotients, however they are written. -/
theorem Nearest.congr (h : m.Nearest p q) (hq : 0 < q) (hq' : 0 < q') (heq : p * q' = p' * q) :
    m.Nearest p' q' := by
  have hscale : ∀ e : ℕ, e * q' * q = e * q * q' := fun e => Nat.mul_right_comm e q' q
  have hpoint : 4 * p' * q = 4 * p * q' := by rw [Nat.mul_assoc, ← heq, Nat.mul_assoc]
  obtain ⟨hlower, hupper, hend⟩ := h
  refine ⟨?_, ?_, fun hend' => hend ?_⟩
  · refine Nat.le_of_mul_le_mul_right ?_ hq
    rw [hscale, hpoint]
    exact Nat.mul_le_mul_right q' hlower
  · refine Nat.le_of_mul_le_mul_right ?_ hq
    rw [hscale, hpoint]
    exact Nat.mul_le_mul_right q' hupper
  · refine hend'.imp (fun he => ?_) fun he => ?_ <;> refine Nat.eq_of_mul_eq_mul_right hq' ?_
    · rw [← hscale, ← hpoint, he]
    · rw [← hscale, ← hpoint, he]

theorem lowerEnd_pos (hm : m.units ≠ 0) : 0 < m.lowerEnd := by
  have hgap := Nat.le_of_dvd (by omega) m.lastPlace_dvd
  have hpos := twoTo_pos (lastPlace m.units)
  rcases m.lowerEnd_cases with ⟨hlow, -⟩ | ⟨-, -, hlow⟩ <;> omega

/-- The interval of a magnitude ends above its half. -/
theorem two_mul_units_le_lowerEnd (m : Magnitude) : 2 * m.units ≤ m.lowerEnd := by
  rcases Nat.eq_zero_or_pos m.units with hm | hm
  · omega
  · have hgap := Nat.le_of_dvd hm m.lastPlace_dvd
    rcases m.lowerEnd_cases with ⟨hlow, -⟩ | ⟨-, -, hlow⟩ <;> omega

/-- A whole number in the interval is at least half of the magnitude. -/
theorem Nearest.floor_le (h : m.Nearest (v * one) 1) : m.floor ≤ 2 * v := by
  have hone : 0 < one := twoTo_pos 1074
  have hlow := m.two_mul_units_le_lowerEnd
  have hpoint := h.lower
  rw [Nat.mul_one] at hpoint
  have hunits : m.units ≤ 2 * v * one := by
    rw [Nat.mul_assoc]
    omega
  exact Nat.div_le_of_le_mul (by rwa [Nat.mul_comm])

theorem upperEnd_lt (m : Magnitude) : m.upperEnd < 8 * magnitudeBound := by
  have hunits := m.units_lt
  rw [upperEnd]
  rcases Nat.eq_zero_or_pos m.units with hm | hm
  · have hgap : twoTo (lastPlace m.units) = 1 := by rw [hm]; rfl
    omega
  · have hgap := Nat.le_of_dvd hm m.lastPlace_dvd
    omega

/-- What lies in the interval of a magnitude other than zero is not too small. -/
theorem Nearest.le_mul (h : m.Nearest (v * one) (tenTo places)) (hm : m.units ≠ 0) :
    tenTo places ≤ v * tenTo 325 := by
  have hone : 4 * one ≤ tenTo 325 := by decide +kernel
  calc tenTo places ≤ m.lowerEnd * tenTo places := Nat.le_mul_of_pos_left _ (lowerEnd_pos hm)
    _ ≤ 4 * (v * one) := h.lower
    _ = v * (4 * one) := Nat.mul_left_comm ..
    _ ≤ v * tenTo 325 := Nat.mul_le_mul_left v hone

/-- What lies in the interval of a magnitude is not too large. -/
theorem Nearest.lt_tenTo (h : m.Nearest (v * one) (tenTo places)) : v < tenTo (309 + places) := by
  by_contra hle
  have hbound : 2 * magnitudeBound ≤ tenTo 309 * one := by decide +kernel
  have hscaled : 8 * magnitudeBound * tenTo places ≤ m.upperEnd * tenTo places :=
    calc 8 * magnitudeBound * tenTo places
        = 4 * (2 * magnitudeBound * tenTo places) := by ring
      _ ≤ 4 * (tenTo 309 * one * tenTo places) :=
        Nat.mul_le_mul_left 4 (Nat.mul_le_mul_right _ hbound)
      _ = 4 * (tenTo (309 + places) * one) := by rw [tenTo_add]; ring
      _ ≤ 4 * (v * one) := Nat.mul_le_mul_left 4 (Nat.mul_le_mul_right one (Nat.le_of_not_lt hle))
      _ ≤ m.upperEnd * tenTo places := h.upper
  exact absurd m.upperEnd_lt (Nat.not_lt_of_le (Nat.le_of_mul_le_mul_right hscaled (tenTo_pos _)))

theorem eq_zero_of_units (hm : m.units = 0) : m = zero := ext_units hm

end Magnitude

theorem le_of_tenTo_le {a b : ℕ} (h : tenTo a ≤ tenTo b) : a ≤ b :=
  (Nat.pow_le_pow_iff_right (by decide)).mp h

theorem lt_of_tenTo_lt {a b : ℕ} (h : tenTo a < tenTo b) : a < b :=
  (Nat.pow_lt_pow_iff_right (by decide)).mp h

namespace Number

/-- Digits that denote something in the interval of a magnitude are read as this magnitude. -/
theorem ofDecimal_eq (negative : Bool) {digits : List ℕ} (hdigits : ∀ d ∈ digits, d < 10)
    (h : m.Nearest (Decimal.value digits * Magnitude.one) (tenTo places)) :
    ofDecimal negative digits (-places) = .finite negative m := by
  rw [← Decimal.value_dropWhile] at h
  have hdigits' : ∀ d ∈ digits.dropWhile (· = 0), d < 10 := fun d hd =>
    hdigits d ((List.dropWhile_sublist _).mem hd)
  have hfirst : ∀ d ds, digits.dropWhile (· = 0) = d :: ds → d ≠ 0 := by
    intro d ds hcons hd
    have hhead := List.head?_dropWhile_not (· = 0) digits
    rw [hcons] at hhead
    simp [hd] at hhead
  unfold ofDecimal
  dsimp only
  generalize digits.dropWhile (· = 0) = ds at h hdigits' hfirst ⊢
  cases ds with
  | nil =>
    have hm : m.units = 0 := by
      by_contra hm
      have hle := h.le_mul hm
      have hpos := tenTo_pos places
      rw [Decimal.value_nil, Nat.zero_mul] at hle
      omega
    rw [Magnitude.eq_zero_of_units hm]
    rfl
  | cons d ds =>
    have hle := Decimal.le_value (hfirst d ds rfl) ds
    have hlt := Decimal.value_lt hdigits'
    have hlarge := lt_of_tenTo_lt (Nat.lt_of_le_of_lt hle h.lt_tenTo)
    rw [List.length_cons] at hlt ⊢
    rw [List.isEmpty_cons, Bool.false_or]
    by_cases hsmall : (-places : ℤ) + (ds.length + 1 : ℕ) < -400
    · -- So far below the least magnitude only zero is left.
      have hm : m.units = 0 := by
        by_contra hm
        have hpower : tenTo places ≤ tenTo (ds.length + 1 + 325) := by
          refine Nat.le_trans (h.le_mul hm) ?_
          rw [tenTo_add (ds.length + 1)]
          exact Nat.mul_le_mul_right _ (Nat.le_of_lt hlt)
        have hplaces := le_of_tenTo_le hpower
        omega
      rw [decide_eq_true hsmall, if_pos rfl, Magnitude.eq_zero_of_units hm]
    · rw [decide_eq_false hsmall, if_neg Bool.false_ne_true, if_neg (by omega), ofRatio,
        Int.neg_neg, Int.toNat_natCast, show (-(places : ℤ)).toNat = 0 by omega,
        show tenTo 0 = 1 from rfl, Nat.mul_one, Magnitude.round?_eq_some (tenTo_pos places) h]
      rfl

/-! ### Reading texts -/

theorem digitValue_lt {c : Char} (h : c.isDigit) : digitValue c < 10 := by
  rw [Text.isDigit_iff] at h
  show c.toNat - 48 < 10
  omega

/-- A decimal that denotes something in the interval of a magnitude is read as this magnitude. -/
theorem unsignedDecimal?_eq {whole behind : List Char} (h : Denotes whole behind v places)
    (hm : m.Nearest (v * Magnitude.one) (tenTo places)) :
    unsignedDecimal? negative (whole ++ behind) = some (.finite negative m) := by
  obtain ⟨⟨hne, hdigits, -, hbehind⟩, hvalue, hplaces⟩ := h
  have hwhole : whole.isEmpty = false := by simpa using hne
  have hlt : ∀ {text : List Char}, (∀ c ∈ text, c.isDigit) →
      ∀ d ∈ text.map digitValue, d < 10 := by
    intro text htext d hd
    obtain ⟨c, hc, rfl⟩ := List.mem_map.mp hd
    exact digitValue_lt (htext c hc)
  rcases hbehind with rfl | ⟨ds, rfl, -, hds⟩
  · rw [List.drop_nil, List.append_nil] at hvalue
    obtain rfl : 0 = places := hplaces
    rw [← hvalue] at hm
    have hread := ofDecimal_eq negative (hlt hdigits) hm
    have hparts : whole.takeWhile Char.isDigit = whole ∧ whole.dropWhile Char.isDigit = [] :=
      ⟨List.takeWhile_eq_self_iff.mpr hdigits, List.dropWhile_eq_nil_iff.mpr hdigits⟩
    simpa [unsignedDecimal?, hparts, hwhole] using hread
  · rw [List.drop_one, List.tail_cons] at hvalue hplaces
    rw [← hvalue, ← hplaces] at hm
    have hread := ofDecimal_eq negative
      (hlt fun c hc => (List.mem_append.mp hc).elim (hdigits c) (hds c)) hm
    have hparts : (whole ++ '.' :: ds).takeWhile Char.isDigit = whole ∧
        (whole ++ '.' :: ds).dropWhile Char.isDigit = '.' :: ds := by
      rw [List.takeWhile_append_of_pos hdigits, List.dropWhile_append_of_pos hdigits]
      exact ⟨List.append_nil whole, rfl⟩
    have hbehind : ds.takeWhile Char.isDigit = ds ∧ ds.dropWhile Char.isDigit = [] :=
      ⟨List.takeWhile_eq_self_iff.mpr hds, List.dropWhile_eq_nil_iff.mpr hds⟩
    simpa [unsignedDecimal?, hparts, hbehind, hwhole] using hread

/-- A sign and a decimal. -/
theorem ofText?_eq {whole behind : List Char} (h : IsDecimal whole behind) (signed : Bool) :
    ofText? ((if signed then ['-'] else []) ++ (whole ++ behind)) =
      unsignedDecimal? signed (whole ++ behind) := by
  obtain ⟨c, more, rfl⟩ := List.exists_cons_of_ne_nil h.ne_nil
  have hc := h.digits c (List.mem_cons_self ..)
  have hlower : c.toLower = c := by
    have hrange := Text.isDigit_iff.mp hc
    exact Text.toLower_eq_self (by omega)
  have hname : ∀ name : String, name.toList.head?.any Char.isDigit = false →
      String.ofList ((c :: (more ++ behind)).map Char.toLower) ≠ name := by
    rintro name hhead rfl
    simp [hlower, hc] at hhead
  have hnan := hname "nan" (by decide)
  have hinf := hname "inf" (by decide)
  have hinfinity := hname "infinity" (by decide)
  have hsign : c ≠ '-' ∧ c ≠ '+' := by
    constructor <;> rintro rfl <;> revert hc <;> decide
  cases signed with
  | true =>
    simp only [ofText?, if_true, List.cons_append, List.nil_append, hnan, hinf, hinfinity]
    rfl
  | false =>
    rw [if_neg Bool.false_ne_true, List.nil_append, List.cons_append, ofText?]
    · simp only [hnan, hinf, hinfinity]
      rfl
    · exact fun rest heq => hsign.1 (List.cons.inj heq).1
    · exact fun rest heq => hsign.2 (List.cons.inj heq).1

end Number

/-! ### Numbers and their texts -/

theorem value_toDigits (n : ℕ) : Decimal.value ((Nat.toDigits 10 n).map digitValue) = n := by
  have hall : ∀ d < 10, digitValue d.digitChar = d := by decide
  induction n using Nat.strongRecOn with
  | ind n ih =>
    rw [Nat.toDigits_eq_if (by decide)]
    split
    · next hlt => rw [List.map_singleton, Decimal.value_singleton, hall n hlt]
    · rw [List.map_append, List.map_singleton, Decimal.value_append, ih (n / 10) (by omega) ,
        Decimal.value_singleton, hall _ (Nat.mod_lt n (by decide))]
      exact Nat.div_add_mod' n 10

theorem denotes_toString (n : ℕ) : Denotes (toString n).toList [] n 0 where
  toIsDecimal := isDecimal_toString n
  value_eq := by
    rw [Nat.toString_eq_repr, Nat.toList_repr, List.drop_nil, List.append_nil, value_toDigits]
  places_eq := rfl

/-- Behind a whole part alone there are no places. -/
theorem Denotes.behind_eq_nil_iff {whole behind : List Char} (h : Denotes whole behind v places) :
    behind = [] ↔ places = 0 := by
  rw [← h.places_eq]
  rcases h.fraction with rfl | ⟨ds, rfl, hne, -⟩
  · simp
  · simpa using hne

/-- A whole magnitude other than zero is at least one. -/
theorem Magnitude.decimalExponent_nonneg (hm : m.units ≠ 0) (hwhole : m.isWhole) :
    0 ≤ m.decimalExponent := by
  have hone : 0 < one := twoTo_pos 1074
  have hle : one ≤ m.units :=
    Nat.le_of_dvd (Nat.pos_of_ne_zero hm) (Nat.dvd_of_mod_eq_zero (of_decide_eq_true hwhole))
  have hscaled : tenTo 324 ≤ m.units * tenTo 324 / one := by
    rw [Nat.le_div_iff_mul_le hone, Nat.mul_comm]
    exact Nat.mul_le_mul_right _ hle
  have hlength := lt_of_tenTo_lt (hscaled.trans_lt (Decimal.lt_tenTo_length _))
  rw [decimalExponent]
  omega

/-- A decimal without its trailing zeros still reads back. -/
theorem Magnitude.nearest_ofScaled (h : m.readsBack c step) :
    m.Nearest
      (Decimal.value (Decimal.ofScaled c step).digits *
        tenTo (Decimal.ofScaled c step).scale.toNat * one)
      (tenTo (-(Decimal.ofScaled c step).scale).toNat) := by
  obtain ⟨k, hvalue, hscale⟩ := Decimal.exists_zeros c step
  refine (nearest_of_readsBack h).congr (tenTo_pos _) (tenTo_pos _) ?_
  rw [hscale]
  generalize Decimal.value (Decimal.ofScaled c step).digits = digits at hvalue
  have hexponents : tenTo k * tenTo step.toNat * tenTo (-(step + k)).toNat =
      tenTo (step + k).toNat * tenTo (-step).toNat := by
    rw [← tenTo_add, ← tenTo_add, ← tenTo_add]
    congr 1
    omega
  calc c * one * tenTo step.toNat * tenTo (-(step + k)).toNat
      = digits * one * (tenTo k * tenTo step.toNat * tenTo (-(step + k)).toNat) := by
        rw [← hvalue]
        ring
    _ = digits * tenTo (step + k).toNat * one * tenTo (-step).toNat := by
        rw [hexponents]
        ring

/-- The text of a magnitude denotes a decimal in its interval, which has a point unless the
magnitude is whole. -/
theorem NumberLayout.denotes_magnitudeText (m : Magnitude) (hm : m.units ≠ 0) :
    ∃ whole behind v places, (source.magnitudeText m).toList = whole ++ behind ∧
      Denotes whole behind v places ∧ m.Nearest (v * Magnitude.one) (tenTo places) ∧
      (behind = [] ↔ m.isWhole) := by
  obtain ⟨c, step, hshortest, hc, hreads, hstep⟩ := Magnitude.exists_shortestFrom hm source.tie 17
    (Int.le_refl _) (Int.le_refl _)
  obtain ⟨k, -, hscale⟩ := Decimal.exists_zeros c step
  obtain ⟨whole, behind, htext, hdenotes⟩ :=
    denotes_positionalText (Decimal.proper_ofScaled hc step)
  have hmagnitude : source.magnitudeText m = positionalText false (.ofScaled c step) := by
    rw [magnitudeText, if_neg hm, ← hshortest]
    rfl
  have hnearest := Magnitude.nearest_ofScaled hreads
  refine ⟨whole, behind, _, _, by rw [hmagnitude, htext], hdenotes, hnearest, ?_⟩
  rw [hdenotes.behind_eq_nil_iff]
  constructor
  · intro hplaces
    rw [hplaces] at hnearest
    exact Magnitude.isWhole_of_nearest hnearest
  · intro hwhole
    have hnonneg := hstep hwhole (Magnitude.decimalExponent_nonneg hm hwhole)
    omega

namespace Number

/-- The text of a finite number denotes a decimal in the interval of its magnitude, with a minus in
front if it is below zero. Whole numbers of few digits are denoted as they are. -/
theorem denotes_sourceText (negative : Bool) (m : Magnitude) :
    ∃ whole behind v places, (finite negative m).sourceText.toList =
        (if negative && m.units ≠ 0 then ['-'] else []) ++ (whole ++ behind) ∧
      Denotes whole behind v places ∧ m.Nearest (v * Magnitude.one) (tenTo places) ∧
      (behind = [] ↔ m.isWhole) ∧ (m.isWhole → m.floor < exactLimit → v = m.floor) := by
  have hsign : ∀ b : Bool, (if b then "-" else "").toList = if b then ['-'] else [] := by decide
  have hone : 0 < Magnitude.one := twoTo_pos 1074
  simp only [sourceText]
  by_cases hwhole : (m.isWhole && m.floor < exactLimit) = true
  · rw [if_pos hwhole]
    simp only [Bool.and_eq_true, decide_eq_true_eq] at hwhole
    have hunits : m.floor * Magnitude.one = m.units :=
      Nat.div_mul_cancel (Nat.dvd_of_mod_eq_zero (of_decide_eq_true hwhole.1))
    have hzero : (m.floor ≠ 0) = (m.units ≠ 0) := by
      rw [← hunits]
      simp [Nat.ne_of_gt hone]
    refine ⟨_, [], m.floor, 0, ?_, denotes_toString m.floor, hunits ▸ m.nearest_self,
      by simp [hwhole.1], fun _ _ => rfl⟩
    simp only [String.toList_append, hsign, hzero, List.append_nil]
  · have hm : m.units ≠ 0 := by
      rintro hm
      rw [Magnitude.eq_zero_of_units hm] at hwhole
      exact hwhole (by decide +kernel)
    obtain ⟨whole, behind, v, places, htext, hdenotes, hnearest, hbehind⟩ :=
      NumberLayout.denotes_magnitudeText m hm
    refine ⟨whole, behind, v, places, ?_, hdenotes, hnearest, hbehind, ?_⟩
    · simp [hwhole, hsign, htext, hm]
    · intro hw hlt
      simp [hw, hlt] at hwhole

/-- A finite number is read back from its text, but for the sign of zero. -/
theorem ofText?_sourceText (negative : Bool) (m : Magnitude) :
    ofText? (finite negative m).sourceText.toList =
      some (.finite (negative && m.units ≠ 0) m) := by
  obtain ⟨whole, behind, v, places, htext, hdenotes, hnearest, -⟩ := denotes_sourceText negative m
  rw [htext, ofText?_eq hdenotes.toIsDecimal, unsignedDecimal?_eq hdenotes hnearest]

/-- Finite numbers have the same text when they are equal, and only then. -/
theorem sourceText_eq_iff {n n' : Number} (h : n.isFinite) (h' : n'.isFinite) :
    n.sourceText = n'.sourceText ↔ n.equals n' := by
  cases n with
  | finite negative m =>
    cases n' with
    | finite negative' m' =>
      constructor
      · intro heq
        have hread := ofText?_sourceText negative m
        rw [heq, ofText?_sourceText] at hread
        obtain ⟨hsign, rfl⟩ := Number.finite.inj (Option.some.inj hread)
        by_cases hm : m'.units = 0 <;> simp_all [equals]
      · intro heq
        simp only [equals, Bool.and_eq_true, Bool.or_eq_true, decide_eq_true_eq] at heq
        obtain ⟨hunits, hsign⟩ := heq
        obtain rfl := Magnitude.ext_units hunits
        rcases hsign with rfl | hm
        · rfl
        · rw [Magnitude.eq_zero_of_units hm]
          cases negative <;> cases negative' <;> decide +kernel
    | _ => cases h'
  | _ => cases h

end Number

end TemplateLang
