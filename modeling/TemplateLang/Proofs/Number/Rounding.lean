import Mathlib.Data.Nat.Dist
import TemplateLang.Proofs.Number.Nearest

/-! What rounding finds. Of all magnitudes it takes the nearest, and of two that are equally near
the one whose mantissa is even. A magnitude that is not on the grid of the quotient is below the
power of two at which this grid begins, and so that power is nearer. -/

namespace TemplateLang

variable {m m' : Magnitude} {n p q u place : ℕ}

/-! ### Quotients -/

/-- A rounded quotient is within half of one, and even in the middle between two. -/
theorem roundQuotient_bounds (p : ℕ) (hq : 0 < q) :
    2 * (roundQuotient p q * q) ≤ 2 * p + q ∧ 2 * p ≤ 2 * (roundQuotient p q * q) + q ∧
      (2 * (roundQuotient p q * q) = 2 * p + q ∨ 2 * p = 2 * (roundQuotient p q * q) + q →
        roundQuotient p q % 2 = 0) := by
  have hdiv := Nat.div_add_mod' p q
  have hmod := Nat.mod_lt p hq
  have hnext : (p / q + 1) * q = p / q * q + q := Nat.succ_mul ..
  simp only [roundQuotient]
  split_ifs <;> omega

/-- No whole number is nearer than the rounded quotient, and one that is as near leaves it even. -/
theorem roundQuotient_nearest (p n : ℕ) (hq : 0 < q) :
    (roundQuotient p q * q).dist p ≤ (n * q).dist p ∧
      ((roundQuotient p q * q).dist p = (n * q).dist p → n ≠ roundQuotient p q →
        roundQuotient p q % 2 = 0) := by
  obtain ⟨hlow, hhigh, heven⟩ := roundQuotient_bounds p hq
  generalize roundQuotient p q = k at *
  simp only [Nat.dist]
  rcases Nat.lt_trichotomy n k with hlt | rfl | hlt
  · have hstep := Nat.mul_le_mul_right q (Nat.succ_le_of_lt hlt)
    rw [Nat.succ_mul] at hstep
    omega
  · simp
  · have hstep := Nat.mul_le_mul_right q (Nat.succ_le_of_lt hlt)
    rw [Nat.succ_mul] at hstep
    omega

namespace Magnitude

/-- A magnitude to which no other is preferred for `p / q` units. -/
structure Closest (m : Magnitude) (p q : ℕ) : Prop where
  le : ∀ m' : Magnitude, (m.units * q).dist p ≤ (m'.units * q).dist p
  even : ∀ m' : Magnitude, (m.units * q).dist p = (m'.units * q).dist p → m' ≠ m → m.isEven

theorem closest_self (m : Magnitude) : m.Closest m.units 1 := by
  refine ⟨fun m' => ?_, fun m' heq hne => absurd (ext_units ?_) hne⟩
  · simp
  · simp only [Nat.dist] at heq
    omega

/-- On the grid of the quotient there is a point as near as a magnitude, and nearer than one that is
no point of it. -/
theorem exists_grid_point (m : Magnitude) (p : ℕ) (hq : 0 < q) :
    ∃ n, (n * twoTo (lastPlace (p / q)) * q).dist p ≤ (m.units * q).dist p ∧
      ((n * twoTo (lastPlace (p / q)) * q).dist p = (m.units * q).dist p →
        m.units = n * twoTo (lastPlace (p / q))) := by
  generalize hplace : lastPlace (p / q) = place
  rcases Nat.lt_or_ge (lastPlace m.units) place with hlt | hle
  · -- the magnitude is below the first point of the grid, and this is below the quotient
    have hlarge : twoTo (52 + place) ≤ p / q :=
      hplace ▸ twoTo_lastPlace_le (by omega)
    have hsmall : m.units < twoTo (52 + place) :=
      (lt_twoTo_lastPlace m.units).trans_le (Nat.pow_le_pow_right (by decide) (by omega))
    have hbelow := (Nat.le_div_iff_mul_le hq).mp hlarge
    have hmul := Nat.mul_lt_mul_of_pos_right hsmall hq
    refine ⟨twoTo 52, ?_⟩
    rw [← twoTo_add]
    simp only [Nat.dist]
    omega
  · obtain ⟨n, hn⟩ := (twoTo_dvd_twoTo hle).trans m.lastPlace_dvd
    rw [Nat.mul_comm] at hn
    exact ⟨n, by rw [hn], fun _ => hn⟩

/-- A magnitude that is an even multiple of some place, no larger than `2 ^ 53` times it, has an even
mantissa. -/
theorem isEven_of_mul (hunits : m.units = n * twoTo place) (heven : n % 2 = 0)
    (hle : n ≤ twoTo 53) : m.isEven := by
  obtain ⟨k, hk, hiff⟩ := m.exists_mantissa
  have hpos := twoTo_pos place
  have heq := hunits.symm.trans hk
  rw [hiff]
  rcases Nat.lt_or_ge place (lastPlace m.units) with hlt | hge
  · -- only a power of two is that large
    have hlarge := twoTo_lastPlace_le (Nat.zero_lt_of_lt hlt)
    have hn : n = twoTo 53 := by
      refine le_antisymm hle (Nat.le_of_mul_le_mul_right ?_ hpos)
      rw [← hunits, ← twoTo_add]
      exact (Nat.pow_le_pow_right (by decide) (by omega)).trans hlarge
    have hplace : lastPlace m.units = place + 1 := by
      rw [hunits, hn, ← twoTo_add, lastPlace, log2_twoTo]
      omega
    rw [hplace, hn, Nat.add_comm place, twoTo_add, ← Nat.mul_assoc] at heq
    have hmantissa : twoTo 53 = k * 2 := Nat.eq_of_mul_eq_mul_right hpos heq
    have hpower : twoTo 53 = 2 ^ 52 * 2 := rfl
    omega
  · obtain ⟨d, hd⟩ := Nat.exists_eq_add_of_le hge
    rw [hd, Nat.add_comm (lastPlace _), twoTo_add, ← Nat.mul_assoc] at heq
    rw [← Nat.eq_of_mul_eq_mul_right (twoTo_pos _) heq, Nat.mul_mod, heven, Nat.zero_mul,
      Nat.zero_mod]

/-- Rounding finds the closest magnitude. -/
theorem closest_of_round? (hq : 0 < q) (h : round? p q = some m) : m.Closest p q := by
  have hunits := units_of_round? h
  have hle := roundQuotient_scaled_le p q
  have hpoints := fun m' : Magnitude => m'.exists_grid_point p hq
  generalize lastPlace (p / q) = place at hunits hle hpoints
  have hgrid : 0 < q * twoTo place := Nat.mul_pos hq (twoTo_pos place)
  have hscaled : ∀ k, k * twoTo place * q = k * (q * twoTo place) := fun k => by
    rw [Nat.mul_assoc, Nat.mul_comm q]
  simp only [hscaled] at hpoints
  have hround : m.units * q = roundQuotient p (q * twoTo place) * (q * twoTo place) := by
    rw [hunits, hscaled]
  constructor
  · intro m'
    obtain ⟨k, hk, -⟩ := hpoints m'
    rw [hround]
    exact (roundQuotient_nearest p k hgrid).1.trans hk
  · intro m' heq hne
    obtain ⟨k, hk, hunits'⟩ := hpoints m'
    obtain ⟨hnearest, heven⟩ := roundQuotient_nearest p k hgrid
    rw [hround] at heq
    refine isEven_of_mul hunits (heven (by omega) ?_) hle
    rintro rfl
    exact hne (ext_units ((hunits' (by omega)).trans hunits.symm))

/-- From an even mantissa to the next one the last place stays. -/
theorem lastPlace_eq_of_isEven (h : m.isEven) (hlow : m.units ≤ u)
    (hhigh : u ≤ m.units + twoTo (lastPlace m.units)) : lastPlace u = lastPlace m.units := by
  obtain ⟨n, hn, heven⟩ := m.exists_mantissa
  rw [heven] at h
  have hsmall := lt_twoTo_lastPlace m.units
  have hlarge : 0 < lastPlace m.units → twoTo (52 + lastPlace m.units) ≤ m.units :=
    twoTo_lastPlace_le
  generalize lastPlace m.units = place at *
  refine lastPlace_eq (hhigh.trans_lt ?_) ?_
  · have hpos := twoTo_pos place
    rw [twoTo_add] at hsmall ⊢
    rw [hn] at hsmall
    have hlt := Nat.lt_of_mul_lt_mul_right hsmall
    have hnext : n + 1 < twoTo 53 := by
      have hpower : twoTo 53 = 2 * 2 ^ 52 := rfl
      omega
    rw [hn, ← Nat.succ_mul]
    exact Nat.mul_lt_mul_of_pos_right hnext hpos
  · exact place.eq_zero_or_pos.imp_right fun hpos => (hlarge hpos).trans hlow

/-- Between two magnitudes of which both have an even mantissa there is another. -/
theorem exists_between (hlt : m.units < m'.units) (h : m.isEven) (h' : m'.isEven) :
    ∃ k : Magnitude, m.units < k.units ∧ k.units < m'.units := by
  have hpos := twoTo_pos (lastPlace m.units)
  rcases Nat.lt_or_ge (m.units + twoTo (lastPlace m.units)) m'.units with hnext | hclose
  · refine ⟨⟨m.units + twoTo (lastPlace m.units), hnext.trans m'.units_lt, ?_⟩,
      Nat.lt_add_of_pos_right hpos, hnext⟩
    rw [lastPlace_eq_of_isEven h (Nat.le_add_right ..) le_rfl]
    exact Nat.dvd_add m.lastPlace_dvd (dvd_refl _)
  · -- the next magnitude would have an odd mantissa
    have hplace := lastPlace_eq_of_isEven h hlt.le hclose
    obtain ⟨n, hn, heven⟩ := m.exists_mantissa
    obtain ⟨n', hn', heven'⟩ := m'.exists_mantissa
    rw [heven] at h
    rw [heven'] at h'
    rw [hplace] at hn'
    generalize lastPlace m.units = place at *
    have hlow : n < n' := by
      rw [hn, hn'] at hlt
      exact Nat.lt_of_mul_lt_mul_right hlt
    have hhigh : n' ≤ n + 1 := by
      rw [hn, hn', ← Nat.succ_mul] at hclose
      exact Nat.le_of_mul_le_mul_right hclose hpos
    omega

theorem Closest.not_lt (hq : 0 < q) (h : m.Closest p q) (h' : m'.Closest p q) :
    ¬ m.units < m'.units := by
  intro hlt
  have heq := le_antisymm (h.le m') (h'.le m)
  have hne : m' ≠ m := fun hmm => hlt.ne (congrArg units hmm.symm)
  obtain ⟨k, hk, hk'⟩ := exists_between hlt (h.even m' heq hne) (h'.even m heq.symm hne.symm)
  have hnearer := h.le k
  have hlow := Nat.mul_lt_mul_of_pos_right hk hq
  have hhigh := Nat.mul_lt_mul_of_pos_right hk' hq
  simp only [Nat.dist] at heq hnearer
  omega

/-- There is one closest magnitude only. -/
theorem Closest.unique (hq : 0 < q) (h : m.Closest p q) (h' : m'.Closest p q) : m = m' :=
  ext_units (le_antisymm (Nat.not_lt.mp (h'.not_lt hq h)) (Nat.not_lt.mp (h.not_lt hq h')))

/-- Rounding succeeds below the largest magnitudes. -/
theorem round?_isSome (hlt : p / q < twoTo 2096) : (round? p q).isSome := by
  have hplace : twoTo (lastPlace (p / q)) ≤ p / q + 1 := by
    rcases Nat.eq_zero_or_pos (lastPlace (p / q)) with hzero | hpos
    · rw [hzero]
      exact Nat.le_add_left ..
    · have hle := twoTo_lastPlace_le hpos
      have hmono : twoTo (lastPlace (p / q)) ≤ twoTo (52 + lastPlace (p / q)) :=
        Nat.pow_le_pow_right (by decide) (by omega)
      omega
  have hmantissa := roundQuotient_le p (q * twoTo (lastPlace (p / q)))
  rw [← Nat.div_div_eq_div_mul] at hmantissa
  have hbound : roundQuotient p (q * twoTo (lastPlace (p / q))) * twoTo (lastPlace (p / q)) <
      magnitudeBound := by
    have hfloor := Nat.div_mul_le_self (p / q) (twoTo (lastPlace (p / q)))
    have hmul := Nat.mul_le_mul_right (twoTo (lastPlace (p / q))) hmantissa
    rw [Nat.succ_mul] at hmul
    have hpower : magnitudeBound = 4 * twoTo 2096 := by decide +kernel
    have hone : 1 < twoTo 2096 := by decide +kernel
    omega
  simp only [round?, hbound, dif_pos, Option.isSome_some]

end Magnitude

end TemplateLang
