import Mathlib.Data.Int.Basic
import Mathlib.Data.List.Basic
import TemplateLang.Proofs.Number.SourceText

/-! Rounding to magnitudes. Every magnitude has an interval around it, with its ends when the
mantissa is even, and whatever lies in the interval is rounded to the magnitude. The decimal with
which a magnitude is written lies there: on the grids that are searched it is tested, and
the grid behind them is so fine that rounding down on it does not leave the interval. -/

namespace TemplateLang

variable {m : Magnitude} {n p q u place c : ℕ} {step : ℤ} {tie : Tie}

/-! ### Places -/

theorem lt_twoTo_lastPlace (u : ℕ) : u < twoTo (53 + lastPlace u) := by
  rcases Nat.eq_zero_or_pos u with rfl | hu
  · exact twoTo_pos _
  · refine (log2_lt_iff (by omega) _).mp ?_
    rw [lastPlace]
    omega

theorem twoTo_lastPlace_le (h : 0 < lastPlace u) : twoTo (52 + lastPlace u) ≤ u := by
  have hu : u ≠ 0 := by
    rintro rfl
    exact absurd h (by decide)
  have hlog : u.log2 = 52 + lastPlace u := by
    rw [lastPlace] at h ⊢
    omega
  rw [← hlog]
  exact Nat.log2_self_le hu

theorem lastPlace_eq (h : u < twoTo (53 + place)) (h' : place = 0 ∨ twoTo (52 + place) ≤ u) :
    lastPlace u = place := by
  rcases Nat.eq_zero_or_pos u with rfl | hu
  · have hpos := twoTo_pos (52 + place)
    have hzero : place = 0 := by omega
    rw [hzero]
    decide
  · have hlt := (log2_lt_iff (by omega) _).mpr h
    rcases h' with rfl | h'
    · rw [lastPlace]
      omega
    · have hle : ¬ u.log2 < 52 + place := fun hlog =>
        absurd ((log2_lt_iff (by omega) _).mp hlog) (by omega)
      rw [lastPlace]
      omega

/-- Multiples of a number are at least as far apart as the number. -/
theorem add_le_of_dvd {a b g : ℕ} (ha : g ∣ a) (hb : g ∣ b) (h : a < b) : a + g ≤ b := by
  have hle := Nat.le_of_dvd (by omega) (Nat.dvd_sub hb ha)
  omega

/-! ### Rounding -/

/-- A quotient within half of a whole number is rounded to it. In the middle between two the
number has to be even. -/
theorem roundQuotient_eq (hq : 0 < q) (hlow : 2 * (n * q) ≤ 2 * p + q)
    (hhigh : 2 * p ≤ 2 * (n * q) + q)
    (htie : 2 * (n * q) = 2 * p + q ∨ 2 * p = 2 * (n * q) + q → n % 2 = 0) :
    roundQuotient p q = n := by
  have hdiv := Nat.div_add_mod p q
  have hmod := Nat.mod_lt p hq
  rw [Nat.mul_comm] at hdiv
  by_cases hle : n * q ≤ p
  · have hquot : p / q = n := Nat.div_eq_of_lt_le hle (by rw [Nat.add_mul]; omega)
    rw [hquot] at hdiv
    unfold roundQuotient
    simp only [hquot]
    split_ifs <;> omega
  · -- Below the number the quotient is the one before it.
    obtain ⟨k, rfl⟩ : ∃ k, n = k + 1 := ⟨n - 1, by
      rcases Nat.eq_zero_or_pos n with rfl | hn
      · simp at hle
      · omega⟩
    rw [Nat.add_mul, Nat.one_mul] at hlow hhigh htie hle
    have hquot : p / q = k := Nat.div_eq_of_lt_le (by omega) (by rw [Nat.add_mul]; omega)
    rw [hquot] at hdiv
    unfold roundQuotient
    simp only [hquot]
    split_ifs <;> omega

/-- A whole quotient is not rounded. -/
theorem roundQuotient_of_dvd (hq : 0 < q) (h : q ∣ p) : roundQuotient p q = p / q := by
  have hexact := Nat.div_mul_cancel h
  exact roundQuotient_eq hq (by omega) (by omega) (by omega)

namespace Magnitude

theorem ext_units {m m' : Magnitude} (h : m.units = m'.units) : m = m' := by
  cases m
  cases m'
  simpa using h

/-- The mantissa of a quotient on its grid. -/
theorem round?_eq_some_of_place (hq : 0 < q) (hplace : lastPlace (p / q) = place)
    (hunits : m.units = n * twoTo place)
    (hlow : 2 * (m.units * q) ≤ 2 * p + twoTo place * q)
    (hhigh : 2 * p ≤ 2 * (m.units * q) + twoTo place * q)
    (htie : 2 * (m.units * q) = 2 * p + twoTo place * q ∨
      2 * p = 2 * (m.units * q) + twoTo place * q → n % 2 = 0) : round? p q = some m := by
  have hscaled : n * (q * twoTo place) = m.units * q := by
    rw [hunits, Nat.mul_comm q, Nat.mul_assoc]
  have hround : roundQuotient p (q * twoTo place) = n := by
    rw [Nat.mul_comm (twoTo place)] at hlow hhigh htie
    refine roundQuotient_eq (Nat.mul_pos hq (twoTo_pos place)) ?_ ?_ ?_ <;> rwa [hscaled]
  have hlt : n * twoTo place < magnitudeBound := hunits ▸ m.units_lt
  unfold round?
  simp only [hplace, hround, hlt, dif_pos]
  exact congrArg some (ext_units hunits.symm)

/-- `p / q` units lie in the interval of the magnitude, which has its ends when the mantissa is
even. -/
structure Nearest (m : Magnitude) (p q : ℕ) : Prop where
  lower : m.lowerEnd * q ≤ 4 * p
  upper : 4 * p ≤ m.upperEnd * q
  even_of_end : m.lowerEnd * q = 4 * p ∨ 4 * p = m.upperEnd * q → m.isEven

/-- The units of a magnitude are its mantissa times its last place. -/
theorem exists_mantissa (m : Magnitude) :
    ∃ n, m.units = n * twoTo (lastPlace m.units) ∧ (m.isEven = true ↔ n % 2 = 0) := by
  obtain ⟨n, hn⟩ := m.lastPlace_dvd
  rw [Nat.mul_comm] at hn
  refine ⟨n, hn, ?_⟩
  rw [isEven, decide_eq_true_iff]
  nth_rewrite 1 [hn]
  rw [Nat.mul_div_cancel _ (twoTo_pos _)]

/-- The interval ends half a last place below the magnitude, or a quarter at a power of two. -/
theorem lowerEnd_cases (m : Magnitude) :
    (m.lowerEnd = 4 * m.units - 2 * twoTo (lastPlace m.units) ∧
      (lastPlace m.units = 0 ∨
        twoTo (52 + lastPlace m.units) + twoTo (lastPlace m.units) ≤ m.units)) ∨
    (0 < lastPlace m.units ∧ m.units = twoTo (52 + lastPlace m.units) ∧
      m.lowerEnd = 4 * m.units - twoTo (lastPlace m.units)) := by
  unfold lowerEnd
  dsimp only
  rcases Nat.eq_zero_or_pos (lastPlace m.units) with hzero | hpos
  · rw [if_neg (by omega)]
    exact .inl ⟨rfl, .inl hzero⟩
  have hle := twoTo_lastPlace_le hpos
  have hlog : m.units.log2 = 52 + lastPlace m.units := by
    rw [lastPlace] at hpos ⊢
    omega
  rw [hlog]
  split_ifs with hpower
  · exact .inr ⟨hpos, hpower.2, rfl⟩
  · refine .inl ⟨rfl, .inr ?_⟩
    have hlt : twoTo (52 + lastPlace m.units) < m.units := by omega
    exact add_le_of_dvd (twoTo_dvd_twoTo (by omega)) m.lastPlace_dvd hlt

/-- Just below a power of two the places are half as far apart as at it. -/
theorem round?_eq_some_of_lt (hq : 0 < q) (hpos : 0 < lastPlace m.units)
    (hpower : m.units = twoTo (52 + lastPlace m.units))
    (hlower : 4 * (m.units * q) ≤ 4 * p + twoTo (lastPlace m.units) * q)
    (hbelow : p < m.units * q) : round? p q = some m := by
  obtain ⟨n, hn, -⟩ := m.exists_mantissa
  obtain ⟨k, hk⟩ : ∃ k, lastPlace m.units = 1 + k := ⟨lastPlace m.units - 1, by omega⟩
  have htwo : twoTo 1 = 2 := rfl
  rw [hk, twoTo_add, htwo, ← Nat.mul_assoc, Nat.mul_comm n] at hn
  rw [hk, twoTo_add, htwo, Nat.mul_assoc] at hlower
  rw [hk, ← Nat.add_assoc] at hpower
  have hunits : m.units * q = 2 * (twoTo (52 + k) * q) := by
    rw [hpower, ← Nat.mul_assoc, ← htwo, ← twoTo_add, Nat.add_left_comm, Nat.add_assoc]
  have hplace : twoTo k * q ≤ twoTo (52 + k) * q :=
    Nat.mul_le_mul_right q (Nat.pow_le_pow_right (by decide) (by omega))
  have hgap : 0 < twoTo k * q := Nat.mul_pos (twoTo_pos k) hq
  refine round?_eq_some_of_place hq (lastPlace_eq ?_ (.inr ?_)) hn (by omega) (by omega) (by omega)
  · exact (Nat.div_lt_iff_lt_mul hq).mpr (hpower ▸ hbelow)
  · exact (Nat.le_div_iff_mul_le hq).mpr (by omega)

/-- Whatever lies in the interval of a magnitude is rounded to it. -/
theorem round?_eq_some (hq : 0 < q) (h : m.Nearest p q) : round? p q = some m := by
  obtain ⟨n, hn, heven⟩ := m.exists_mantissa
  obtain ⟨hlower, hupper, hend⟩ := h
  have hroom : m.units + twoTo (lastPlace m.units) ≤ twoTo (53 + lastPlace m.units) :=
    add_le_of_dvd m.lastPlace_dvd (twoTo_dvd_twoTo (by omega)) (lt_twoTo_lastPlace m.units)
  have hgap : 0 < twoTo (lastPlace m.units) * q := Nat.mul_pos (twoTo_pos _) hq
  have hroom' := Nat.mul_le_mul_right q hroom
  rw [heven, upperEnd, Nat.add_mul, Nat.mul_assoc, Nat.mul_assoc] at hend
  rw [upperEnd, Nat.add_mul, Nat.mul_assoc, Nat.mul_assoc] at hupper
  rw [Nat.add_mul] at hroom'
  have hlt : p / q < twoTo (53 + lastPlace m.units) := (Nat.div_lt_iff_lt_mul hq).mpr (by omega)
  rcases m.lowerEnd_cases with ⟨hlow, hplace⟩ | ⟨hpos, hpower, hlow⟩
  · rw [hlow, Nat.sub_mul, Nat.mul_assoc, Nat.mul_assoc] at hlower hend
    refine round?_eq_some_of_place hq (lastPlace_eq hlt ?_) hn (by omega) (by omega) (by omega)
    refine hplace.imp_right fun hle => (Nat.le_div_iff_mul_le hq).mpr ?_
    have hle' := Nat.mul_le_mul_right q hle
    rw [Nat.add_mul] at hle'
    omega
  · rw [hlow, Nat.sub_mul, Nat.mul_assoc] at hlower
    by_cases hbelow : p < m.units * q
    · exact round?_eq_some_of_lt hq hpos hpower (by omega) hbelow
    · refine round?_eq_some_of_place hq (lastPlace_eq hlt (.inr ?_)) hn (by omega) (by omega)
        (by omega)
      exact (Nat.le_div_iff_mul_le hq).mpr (hpower ▸ Nat.le_of_not_lt hbelow)

theorem units_of_round? (h : round? p q = some m) :
    m.units = roundQuotient p (q * twoTo (lastPlace (p / q))) * twoTo (lastPlace (p / q)) := by
  unfold round? at h
  dsimp only at h
  split_ifs at h
  exact (congrArg units (Option.some.inj h)).symm

/-- What is nearest to a whole number is whole, since a place divides one or is a multiple of it. -/
theorem isWhole_of_nearest (h : m.Nearest (n * one) 1) : m.isWhole := by
  have hunits := units_of_round? (round?_eq_some Nat.one_pos h)
  rw [Nat.one_mul] at hunits
  generalize lastPlace (n * one / 1) = place at hunits
  have hdvd : one ∣ m.units := by
    rcases Nat.le_total place 1074 with hplace | hplace
    · have hdvd : twoTo place ∣ n * one := (twoTo_dvd_twoTo hplace).mul_left n
      rw [hunits, roundQuotient_of_dvd (twoTo_pos place) hdvd, Nat.div_mul_cancel hdvd]
      exact Nat.dvd_mul_left one n
    · rw [hunits]
      exact (twoTo_dvd_twoTo hplace).mul_left _
  exact decide_eq_true (Nat.mod_eq_zero_of_dvd hdvd)

/-! ### Decimals in the interval -/

theorem lowerEnd_add_le (m : Magnitude) (hm : m.units ≠ 0) :
    m.lowerEnd + twoTo (lastPlace m.units) ≤ 4 * m.units := by
  have hgap := Nat.le_of_dvd (by omega) m.lastPlace_dvd
  rcases m.lowerEnd_cases with ⟨hlow, -⟩ | ⟨-, -, hlow⟩ <;> omega

/-- A magnitude is in its interval. -/
theorem nearest_self (m : Magnitude) : m.Nearest m.units 1 := by
  have hgap := twoTo_pos (lastPlace m.units)
  rcases Nat.eq_zero_or_pos m.units with hm | hm
  · have heven : m.isEven := by rw [isEven, hm]; decide
    refine ⟨?_, by rw [upperEnd]; omega, fun _ => heven⟩
    rcases m.lowerEnd_cases with ⟨hlow, -⟩ | ⟨-, -, hlow⟩ <;> omega
  · have hlow := m.lowerEnd_add_le (by omega)
    exact ⟨by omega, by rw [upperEnd]; omega, by rw [upperEnd]; omega⟩

theorem nearest_of_readsBack (h : m.readsBack c step) :
    m.Nearest (c * one * tenTo step.toNat) (tenTo (-step).toNat) := by
  unfold readsBack at h
  have hpoint : 4 * c * one * tenTo step.toNat = 4 * (c * one * tenTo step.toNat) := by
    simp only [Nat.mul_assoc]
  simp only [hpoint] at h
  split_ifs at h with heven
  · simp only [Bool.and_eq_true, decide_eq_true_eq] at h
    exact ⟨h.1, h.2, fun _ => heven⟩
  · simp only [Bool.and_eq_true, decide_eq_true_eq] at h
    exact ⟨Nat.le_of_lt h.1, Nat.le_of_lt h.2, by omega⟩

theorem readsBack_of_lt
    (hlow : m.lowerEnd * tenTo (-step).toNat < 4 * (c * (one * tenTo step.toNat)))
    (hhigh : 4 * (c * (one * tenTo step.toNat)) < m.upperEnd * tenTo (-step).toNat) :
    m.readsBack c step := by
  unfold readsBack
  have hpoint : 4 * c * one * tenTo step.toNat = 4 * (c * (one * tenTo step.toNat)) := by
    simp only [Nat.mul_assoc]
  simp only [hpoint]
  split_ifs <;> simp only [Bool.and_eq_true, decide_eq_true_eq] <;> omega

/-- With one digit more than are searched, rounding down stays in the interval: a step of the grid
is less than a quarter of a last place, because `2 ^ 55` is less than `10 ^ 17`. -/
theorem readsBack_floor (hm : m.units ≠ 0) (hstep : step + 17 ≤ m.decimalExponent) :
    m.readsBack (m.units * tenTo (-step).toNat / (one * tenTo step.toNat)) step := by
  have hfine : one * tenTo step.toNat * tenTo 17 ≤ m.units * tenTo (-step).toNat := by
    rw [Nat.mul_assoc, ← tenTo_add]
    exact one_mul_tenTo_le hm 17 hstep
  have hunits : m.units * tenTo (-step).toNat <
      twoTo 53 * (twoTo (lastPlace m.units) * tenTo (-step).toNat) := by
    rw [← Nat.mul_assoc, ← twoTo_add]
    exact Nat.mul_lt_mul_of_pos_right (lt_twoTo_lastPlace m.units) (tenTo_pos _)
  have hlow := Nat.mul_le_mul_right (tenTo (-step).toNat) (m.lowerEnd_add_le hm)
  have hhigh : m.upperEnd * tenTo (-step).toNat = 4 * (m.units * tenTo (-step).toNat) +
      2 * (twoTo (lastPlace m.units) * tenTo (-step).toNat) := by
    rw [upperEnd, Nat.add_mul, Nat.mul_assoc, Nat.mul_assoc]
  rw [Nat.add_mul, Nat.mul_assoc] at hlow
  have hgap := Nat.mul_pos (twoTo_pos (lastPlace m.units)) (tenTo_pos (-step).toNat)
  have hone : 0 < one := twoTo_pos 1074
  have hmod := Nat.mod_lt (m.units * tenTo (-step).toNat) (Nat.mul_pos hone (tenTo_pos step.toNat))
  have hdiv := Nat.div_add_mod' (m.units * tenTo (-step).toNat) (one * tenTo step.toNat)
  have hten : tenTo 17 = 100000000000000000 := rfl
  have htwo : twoTo 53 = 9007199254740992 := rfl
  rw [hten] at hfine
  rw [htwo] at hunits
  exact readsBack_of_lt (by omega) (by omega)

/-- A whole magnitude is itself a point of the grid of whole numbers. -/
theorem readsBack_zero (hm : m.units ≠ 0) (hwhole : m.isWhole) : m.readsBack (m.units / one) 0 := by
  have hgap := twoTo_pos (lastPlace m.units)
  have hlow := m.lowerEnd_add_le hm
  have hten : tenTo 0 = 1 := rfl
  have hunits : m.units / one * one = m.units :=
    Nat.div_mul_cancel (Nat.dvd_of_mod_eq_zero (of_decide_eq_true hwhole))
  apply readsBack_of_lt <;> simp only [Int.neg_zero, Int.toNat_zero, hten, Nat.mul_one, hunits]
  · omega
  · rw [upperEnd]
    omega

/-- There is a neighbour where the point below the magnitude reads back. -/
theorem neighbour?_ne_none
    (h : m.readsBack (m.units * tenTo (-step).toNat / (one * tenTo step.toNat)) step) :
    m.neighbour? tie step ≠ none := by
  unfold neighbour?
  simp only [h]
  split <;> try contradiction
  · exact Option.some_ne_none _
  · cases tie <;> dsimp only <;> split_ifs <;> exact Option.some_ne_none _

/-- The shortest decimal is a point of a grid that reads back. That of a whole magnitude is a whole
number. -/
theorem exists_shortestFrom (hm : m.units ≠ 0) (tie : Tie) (tries : ℕ)
    (hstep : step ≤ m.decimalExponent) (htries : step + 17 ≤ m.decimalExponent + tries) :
    ∃ c step', m.shortestFrom tie tries step = .ofScaled c step' ∧ 0 < c ∧
      m.readsBack c step' ∧ (m.isWhole → 0 ≤ step → 0 ≤ step') := by
  induction tries generalizing step with
  | zero =>
    exact ⟨_, step, rfl, scaled_pos hm hstep, readsBack_floor hm (by simpa using htries),
      fun _ h => h⟩
  | succ tries ih =>
    rw [shortestFrom]
    cases hc : m.neighbour? tie step with
    | some c => exact ⟨c, step, rfl, neighbour?_pos hm hstep hc, (of_neighbour? hc).2, fun _ h => h⟩
    | none =>
      obtain ⟨c, step', hshortest, hpos, hreads, hnonneg⟩ :=
        @ih (step - 1) (by omega) (by omega)
      refine ⟨c, step', hshortest, hpos, hreads, fun hwhole h => hnonneg hwhole ?_⟩
      -- the search does not go below the grid of whole numbers
      rcases h.eq_or_lt with rfl | h
      · have hten : tenTo 0 = 1 := rfl
        refine absurd hc (neighbour?_ne_none ?_)
        simpa only [Int.neg_zero, Int.toNat_zero, hten, Nat.mul_one] using readsBack_zero hm hwhole
      · omega

end Magnitude

end TemplateLang
