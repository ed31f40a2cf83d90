import TemplateLang.Proofs.Escaping.LineBreaks

/-! Chains of rewrites of an escaped text. Each rewrite of a safe text leaves it safe, or divides
a unit and leaves it broken. A broken text stays broken until a cut reaches back to the unit,
so the result of a chain is safe exactly when each unit that was divided is cut off
later. -/

namespace TemplateLang.Escaping

variable {context : EscapeContext} {a b r s t : List Char} {p q n limit : ℕ} {ellipsis : Bool}

/-! ### Rewrites -/

/-- What a directive does to an escaped text that it does not escape again. -/
inductive Rewrite where
  | cut (limit : ℕ) (ellipsis : Bool)
  | breakLines

namespace Rewrite

def apply : Rewrite → List Char → List Char
  | .cut limit ellipsis, t => Text.truncateChars t limit ellipsis
  | .breakLines, t => Text.breakLines t

def run : List Rewrite → List Char → List Char
  | [], t => t
  | step :: rest, t => run rest (step.apply t)

end Rewrite

/-- How many dots end a cut text. -/
def dots (limit : ℕ) (ellipsis : Bool) : ℕ := if ellipsis && 3 < limit then 3 else 0

/-- How much of a text a cut keeps. -/
def room (limit : ℕ) (ellipsis : Bool) : ℕ := limit - dots limit ellipsis

namespace Rewrite

/-- The rewrite divides the unit at `p` of a text. -/
def Divides (context : EscapeContext) (p : ℕ) (t : List Char) : Rewrite → Prop
  | .cut limit ellipsis => limit < t.length ∧ DividedAt context t p (room limit ellipsis)
  | .breakLines => False

/-- The rewrite cuts a text back to `p` or before. -/
def Removes (p : ℕ) (t : List Char) : Rewrite → Prop
  | .cut limit ellipsis => limit < t.length ∧ room limit ellipsis ≤ p
  | .breakLines => False

/-- No rewrite of a chain cuts the text back to `p`. -/
def Keeps (p : ℕ) : List Rewrite → List Char → Prop
  | [], _ => True
  | step :: rest, t => ¬ step.Removes p t ∧ Keeps p rest (step.apply t)

/-- Some rewrite of a chain divides a unit that no later one removes. -/
def LeavesDivided (context : EscapeContext) : List Rewrite → List Char → Prop
  | [], _ => False
  | step :: rest, t =>
    (∃ p, step.Divides context p t ∧ Keeps p rest (step.apply t)) ∨
      LeavesDivided context rest (step.apply t)

end Rewrite

/-! ### Cuts as rewrites -/

theorem truncateChars_of_le (h : t.length ≤ limit) : Text.truncateChars t limit ellipsis = t := by
  simp only [Text.truncateChars]
  rw [if_pos h]

theorem truncateChars_of_lt (h : limit < t.length) :
    Text.truncateChars t limit ellipsis =
      Text.cutBefore (t.take (room limit ellipsis)) (t.drop (room limit ellipsis)) ++
        List.replicate (dots limit ellipsis) '.' := by
  simp only [Text.truncateChars, room, dots, Text.ellipsisDots]
  rw [if_neg (Nat.not_le.mpr h)]
  by_cases hd : (ellipsis && decide (3 < limit)) = true
  · simp [hd, List.replicate]
  · simp [hd]

theorem truncate_of_le {s : String} (h : s.length ≤ limit) :
    Text.truncate s limit ellipsis = s := by
  rw [Text.truncate, truncateChars_of_le (by rwa [String.length_toList]), String.ofList_toList]

theorem toList_truncate_of_lt {s : String} (h : limit < s.length) :
    (Text.truncate s limit ellipsis).toList =
      Text.cutBefore (s.toList.take (room limit ellipsis)) (s.toList.drop (room limit ellipsis)) ++
        List.replicate (dots limit ellipsis) '.' := by
  rw [Text.truncate, String.toList_ofList, truncateChars_of_lt (by rwa [String.length_toList])]

theorem safe_replicate_dot (context : EscapeContext) (n : ℕ) :
    Safe context (List.replicate n '.') := by
  induction n with
  | zero => exact .nil
  | succ n ih => exact .cons (safeUnit_dot context) ih

theorem broken_append_dots (ha : Safe context a) (hr : Fragment context r) :
    Broken context a.length (a ++ r ++ List.replicate n '.') :=
  ⟨a, r, n, by simp, rfl, ha, hr⟩

/-- A cut in the safe part of a text leaves a safe text or divides a unit. -/
theorem cut_within (ha : Safe context a) (hk : room limit ellipsis ≤ a.length)
    (hl : limit < (a ++ b).length) :
    (Safe context (Text.truncateChars (a ++ b) limit ellipsis) ∧
        ∀ p, ¬ DividedAt context (a ++ b) p (room limit ellipsis)) ∨
      ∃ p, DividedAt context (a ++ b) p (room limit ellipsis) ∧
        Broken context p (Text.truncateChars (a ++ b) limit ellipsis) := by
  rw [truncateChars_of_lt hl]
  rcases cut_cases (b := b) ha hk with ⟨hs, hd⟩ | ⟨p, hd, w, r, he, rfl, hw, hr⟩
  · exact .inl ⟨hs.append (safe_replicate_dot context _), hd⟩
  · exact .inr ⟨w.length, hd, he ▸ broken_append_dots hw hr⟩

/-- A cut behind the fragment of a broken text leaves the fragment, or the beginning of it. -/
theorem Broken.cut_beyond (h : Broken context p t) (hk : p < room limit ellipsis)
    (hl : limit < t.length) : Broken context p (Text.truncateChars t limit ellipsis) := by
  rw [truncateChars_of_lt hl]
  obtain ⟨a, r, n, rfl, rfl, ha, hr⟩ := h
  obtain ⟨i, hi⟩ : ∃ i, room limit ellipsis = a.length + (i + 1) :=
    ⟨room limit ellipsis - a.length - 1, by omega⟩
  have hpart : Fragment context (r.take (i + 1)) := by
    refine hr.of_prefix (List.take_prefix _ r) ?_
    obtain ⟨-, -, -, -, -, hne⟩ := hr
    simp [hne]
  have htake : (a ++ (r ++ List.replicate n '.')).take (a.length + (i + 1)) =
      a ++ (r.take (i + 1) ++ List.replicate (min (i + 1 - r.length) n) '.') := by
    rw [List.take_length_add_append, List.take_append, List.take_replicate]
  rw [hi, htake, cutBefore_eq_self hpart.not_endsInReference]
  refine ⟨a, r.take (i + 1), min (i + 1 - r.length) n + dots limit ellipsis, ?_, rfl, ha, hpart⟩
  rw [List.append_assoc, List.append_assoc, List.replicate_append_replicate]

/-! ### Steps -/

/-- Only where line breaks were changed has an HTML text a tag. -/
def Settled (context : EscapeContext) (t : List Char) : Prop :=
  context = .html → '<' ∈ t → LinesBroken t

theorem mem_of_mem_cutBefore {kept rest : List Char} {c : Char}
    (h : c ∈ Text.cutBefore kept rest) : c ∈ kept := by
  simp only [Text.cutBefore] at h
  split at h
  next before hd =>
    split_ifs at h
    · have hb : c ∈ kept.reverse.dropWhile Text.isReferenceChar := by
        rw [hd]
        exact List.mem_cons_of_mem _ (List.mem_reverse.mp h)
      exact List.mem_reverse.mp ((List.dropWhile_sublist _).subset hb)
    · exact h
  next => exact h

theorem mem_of_mem_truncateChars {c : Char} (h : c ∈ Text.truncateChars t limit ellipsis) :
    c ∈ t ∨ c = '.' := by
  rcases Nat.lt_or_ge limit t.length with hl | hl
  · rw [truncateChars_of_lt hl] at h
    rcases List.mem_append.mp h with h | h
    · exact .inl (List.mem_of_mem_take (mem_of_mem_cutBefore h))
    · exact .inr (List.eq_of_mem_replicate h)
  · rw [truncateChars_of_le hl] at h
    exact .inl h

theorem Settled.apply (h : Settled context t) (step : Rewrite) :
    Settled context (step.apply t) := by
  cases step with
  | cut limit ellipsis =>
    intro hc ht
    have hold : ∀ {c : Char}, c ≠ '.' → c ∈ Text.truncateChars t limit ellipsis → c ∈ t :=
      fun hne hm => (mem_of_mem_truncateChars hm).resolve_right hne
    have hl := h hc (hold (by decide) ht)
    exact ⟨fun hm => hl.1 (hold (by decide) hm), fun hm => hl.2 (hold (by decide) hm)⟩
  | breakLines => exact fun _ _ => linesBroken_breakLines t

/-- A fragment in HTML is the beginning of a tag. -/
theorem Fragment.lt_mem (h : Fragment .html r) : '<' ∈ r := by
  obtain ⟨u, hu, hamp, hru, hne, hr⟩ := h
  obtain ⟨c, w, rfl⟩ := List.exists_cons_of_ne_nil hr
  cases hu with
  | htmlPlain =>
    obtain ⟨rfl, hw⟩ := List.cons_prefix_cons.mp hru
    rw [List.prefix_nil.mp hw] at hne
    exact absurd rfl hne
  | htmlReference => simp at hamp
  | htmlBreak =>
    obtain ⟨rfl, -⟩ := List.cons_prefix_cons.mp hru
    exact List.mem_cons_self ..

theorem Broken.linesBroken (h : Broken context p t) (hs : Settled context t) : LinesBroken t := by
  obtain ⟨a, r, n, rfl, -, ha, hr⟩ := h
  by_cases hc : context = .html
  · subst hc
    exact hs rfl (by simp [hr.lt_mem])
  · have hla := ha.linesBroken hc
    obtain ⟨u, hu, -, hru, -, -⟩ := hr
    have hlu := hu.safe.linesBroken hc
    have hlr : LinesBroken r :=
      ⟨fun hm => hlu.1 (hru.subset hm), fun hm => hlu.2 (hru.subset hm)⟩
    exact ⟨by simp [hla.1, hlr.1], by simp [hla.2, hlr.2]⟩

/-- A rewrite leaves a safe text and divides nothing, or leaves a text broken where it divides a
unit. -/
def Outcome (context : EscapeContext) (step : Rewrite) (t : List Char) : Prop :=
  (Safe context (step.apply t) ∧ ∀ p, ¬ step.Divides context p t) ∨
    ∃ p, step.Divides context p t ∧ Broken context p (step.apply t)

theorem outcome_cut (ha : Safe context a) (hk : room limit ellipsis ≤ a.length)
    (hl : limit < (a ++ b).length) : Outcome context (.cut limit ellipsis) (a ++ b) := by
  rcases cut_within ha hk hl with ⟨hs, hd⟩ | ⟨p, hd, hp⟩
  · exact .inl ⟨hs, fun p h => hd p h.2⟩
  · exact .inr ⟨p, ⟨hl, hd⟩, hp⟩

theorem Safe.outcome (h : Safe context t) (step : Rewrite) : Outcome context step t := by
  cases step with
  | cut limit ellipsis =>
    rcases Nat.lt_or_ge limit t.length with hl | hl
    · have hk : room limit ellipsis ≤ t.length := (Nat.sub_le _ _).trans (Nat.le_of_lt hl)
      simpa using outcome_cut (b := []) h hk (by simpa using hl)
    · refine .inl ⟨?_, fun p hd => absurd hd.1 (Nat.not_lt.mpr hl)⟩
      rw [Rewrite.apply, truncateChars_of_le hl]
      exact h
  | breakLines => exact .inl ⟨h.breakLines, fun _ => id⟩

theorem Broken.outcome_of_removes {step : Rewrite} (h : Broken context p t)
    (hr : step.Removes p t) : Outcome context step t := by
  cases step with
  | cut limit ellipsis =>
    obtain ⟨a, r, n, rfl, rfl, ha, -⟩ := h
    exact outcome_cut ha hr.2 hr.1
  | breakLines => exact hr.elim

theorem Broken.apply {step : Rewrite} (h : Broken context p t) (hs : Settled context t)
    (hr : ¬ step.Removes p t) :
    Broken context p (step.apply t) ∧ ∀ q, ¬ step.Divides context q t := by
  cases step with
  | cut limit ellipsis =>
    rcases Nat.lt_or_ge limit t.length with hl | hl
    · have hk : p < room limit ellipsis := Nat.not_le.mp fun hk => hr ⟨hl, hk⟩
      exact ⟨h.cut_beyond hk hl, fun q hd => h.not_dividedAt hk hd.2⟩
    · refine ⟨?_, fun q hd => absurd hd.1 (Nat.not_lt.mpr hl)⟩
      rw [Rewrite.apply, truncateChars_of_le hl]
      exact h
  | breakLines =>
    refine ⟨?_, fun _ => id⟩
    rw [Rewrite.apply, breakLines_eq_self (h.linesBroken hs)]
    exact h

/-! ### Runs -/

theorem Rewrite.Divides.unique {step : Rewrite} (hp : step.Divides context p t)
    (hq : step.Divides context q t) : p = q := by
  cases step with
  | cut => exact hp.2.unique hq.2
  | breakLines => exact hp.elim

/-- Safe texts stay safe and broken ones become safe when no divided unit is left. -/
theorem run_safe_iff (steps : List Rewrite) (t : List Char) (hs : Settled context t) :
    (Safe context t →
        (Safe context (Rewrite.run steps t) ↔ ¬ Rewrite.LeavesDivided context steps t)) ∧
      ∀ p, Broken context p t →
        (Safe context (Rewrite.run steps t) ↔
          ¬ Rewrite.Keeps p steps t ∧ ¬ Rewrite.LeavesDivided context steps t) := by
  induction steps generalizing t with
  | nil =>
    refine ⟨fun h => ?_, fun p h => ?_⟩
    · simpa [Rewrite.run, Rewrite.LeavesDivided] using h
    · simpa [Rewrite.run, Rewrite.Keeps] using h.not_safe
  | cons step rest ih =>
    obtain ⟨ihs, ihb⟩ := ih (step.apply t) (hs.apply step)
    have houtcome : Outcome context step t →
        (Safe context (Rewrite.run rest (step.apply t)) ↔
          ¬ Rewrite.LeavesDivided context (step :: rest) t) := by
      rintro (⟨h, hd⟩ | ⟨p, hd, h⟩)
      · rw [ihs h]
        simp [Rewrite.LeavesDivided, hd]
      · rw [ihb p h]
        have hiff : (∃ q, step.Divides context q t ∧ Rewrite.Keeps q rest (step.apply t)) ↔
            Rewrite.Keeps p rest (step.apply t) := by
          refine ⟨?_, fun hk => ⟨p, hd, hk⟩⟩
          rintro ⟨q, hq, hk⟩
          rwa [hd.unique hq]
        rw [Rewrite.LeavesDivided, hiff, not_or]
    refine ⟨fun h => houtcome (h.outcome step), fun p h => ?_⟩
    by_cases hr : step.Removes p t
    · rw [Rewrite.run, houtcome (h.outcome_of_removes hr)]
      simp [Rewrite.Keeps, hr]
    · obtain ⟨hb, hd⟩ := h.apply hs hr
      rw [Rewrite.run, ihb p hb]
      simp [Rewrite.Keeps, Rewrite.LeavesDivided, hr, hd]

theorem run_safe_or_broken (steps : List Rewrite) (t : List Char) (hs : Settled context t)
    (h : Safe context t ∨ ∃ p, Broken context p t) :
    Safe context (Rewrite.run steps t) ∨ ∃ p, Broken context p (Rewrite.run steps t) := by
  induction steps generalizing t with
  | nil => exact h
  | cons step rest ih =>
    refine ih (step.apply t) (hs.apply step) ?_
    have houtcome : Outcome context step t →
        Safe context (step.apply t) ∨ ∃ p, Broken context p (step.apply t) := by
      rintro (⟨h, -⟩ | ⟨p, -, h⟩)
      · exact .inl h
      · exact .inr ⟨p, h⟩
    rcases h with h | ⟨p, h⟩
    · exact houtcome (h.outcome step)
    · by_cases hr : step.Removes p t
      · exact houtcome (h.outcome_of_removes hr)
      · exact .inr ⟨p, (h.apply hs hr).1⟩

end TemplateLang.Escaping
