import TemplateLang.Proofs.Escaping.SafeText

/-! Cuts of safe texts. A position of a safe text lies between two units or inside one. A cut
between units leaves a safe text, and so does one inside a character reference, which
moves back before it. A cut inside any other unit leaves a fragment of the unit behind,
and no text that goes on from a fragment with dots is safe. -/

namespace TemplateLang.Escaping

variable {context : EscapeContext} {a b t u v r kept rest : List Char} {p q k n limit : ℕ}
  {ellipsis : Bool}

/-! ### Positions -/

/-- A unit in a text is not divided by the end of a safe text that the text begins with. -/
theorem SafeUnit.length_le (hb : Safe context b) (hu : SafeUnit context u) (hbu : b ++ u <+: t)
    (ha : Safe context a) (hat : a <+: t) (h : b.length < a.length) :
    b.length + u.length ≤ a.length := by
  obtain ⟨d, rfl⟩ : b <+: a :=
    List.prefix_of_prefix_length_le ((List.prefix_append b u).trans hbu) hat (Nat.le_of_lt h)
  have hd : d ≠ [] := by rintro rfl; simp at h
  obtain ⟨v, s, hv, -, rfl⟩ := (hb.of_append ha).exists_unit hd
  obtain ⟨x, rfl⟩ := hat
  have hut : u <+: v ++ (s ++ x) := by simpa using hbu
  obtain rfl := hu.unique hv hut (List.prefix_append v _)
  simp

/-- A position of a safe text lies between two units or inside one. -/
theorem Safe.split (h : Safe context t) (hk : k ≤ t.length) :
    (∃ a b, t = a ++ b ∧ Safe context a ∧ a.length = k) ∨
      ∃ a u b, t = a ++ (u ++ b) ∧ Safe context a ∧ SafeUnit context u ∧
        a.length < k ∧ k < a.length + u.length := by
  induction h generalizing k with
  | nil => exact .inl ⟨[], [], rfl, .nil, (Nat.le_zero.mp hk).symm⟩
  | @cons u t hu _ ih =>
    rcases Nat.lt_or_ge k u.length with hlt | hge
    · rcases Nat.eq_zero_or_pos k with rfl | hpos
      · exact .inl ⟨[], u ++ t, rfl, .nil, rfl⟩
      · exact .inr ⟨[], u, t, rfl, .nil, hu, by simpa using hpos, by simpa using hlt⟩
    · have hk' : k - u.length ≤ t.length := by
        rw [List.length_append] at hk
        omega
      rcases ih hk' with ⟨a, b, rfl, ha, hl⟩ | ⟨a, v, b, rfl, ha, hv, h₁, h₂⟩
      · exact .inl ⟨u ++ a, b, by simp, .cons hu ha, by simp; omega⟩
      · exact .inr ⟨u ++ a, v, b, by simp, .cons hu ha, hv, by simp; omega, by simp; omega⟩

/-- At `p` a unit begins that is no character reference and that goes on beyond `k`. -/
def DividedAt (context : EscapeContext) (t : List Char) (p k : ℕ) : Prop :=
  ∃ a u b, t = a ++ (u ++ b) ∧ a.length = p ∧ Safe context a ∧ SafeUnit context u ∧
    u.head? ≠ some '&' ∧ p < k ∧ k < p + u.length

theorem DividedAt.unique (hp : DividedAt context t p k) (hq : DividedAt context t q k) :
    p = q := by
  obtain ⟨a, u, b, rfl, rfl, ha, hu, -, h₁, h₂⟩ := hp
  obtain ⟨a', u', b', he, rfl, ha', hu', -, h₁', h₂'⟩ := hq
  have hat : a ++ u <+: a ++ (u ++ b) := by simp
  have hat' : a' ++ u' <+: a ++ (u ++ b) := he ▸ by simp
  rcases Nat.lt_trichotomy a.length a'.length with h | h | h
  · have := SafeUnit.length_le ha hu hat ha' ((List.prefix_append a' u').trans hat') h
    omega
  · exact h
  · have := SafeUnit.length_le ha' hu' hat' ha ((List.prefix_append a u).trans hat) h
    omega

/-- No unit is divided where a safe text ends. -/
theorem not_dividedAt_length (ha : Safe context a) : ¬ DividedAt context (a ++ b) p a.length := by
  rintro ⟨a', u, b', he, rfl, ha', hu, -, h₁, h₂⟩
  have hat : a' ++ u <+: a ++ b := he ▸ by simp
  have := SafeUnit.length_le ha' hu hat ha (List.prefix_append a b) h₁
  omega

/-- Inside a character reference no other unit is divided. -/
theorem not_dividedAt_reference (ha : Safe context a) (hu : SafeUnit context u)
    (hr : u.head? = some '&') (h₁ : a.length < k) (h₂ : k < a.length + u.length) :
    ¬ DividedAt context (a ++ (u ++ b)) p k := by
  rintro ⟨a', v, b', he, rfl, ha', hv, hne, h₁', h₂'⟩
  have hat : a ++ u <+: a ++ (u ++ b) := by simp
  have hat' : a' ++ v <+: a ++ (u ++ b) := he ▸ by simp
  rcases Nat.lt_trichotomy a.length a'.length with h | h | h
  · have := SafeUnit.length_le ha hu hat ha' ((List.prefix_append a' v).trans hat') h
    omega
  · obtain ⟨rfl, hub⟩ := List.append_inj he h
    have hvu : v <+: u ++ b := ⟨b', hub.symm⟩
    obtain rfl := hu.unique hv (List.prefix_append u b) hvu
    exact hne hr
  · have := SafeUnit.length_le ha' hv hat' ha ((List.prefix_append a u).trans hat) h
    omega

/-! ### Fragments -/

/-- What a cut leaves of a unit that it divides. -/
def Fragment (context : EscapeContext) (r : List Char) : Prop :=
  ∃ u, SafeUnit context u ∧ u.head? ≠ some '&' ∧ r <+: u ∧ r ≠ u ∧ r ≠ []

theorem Fragment.of_prefix (h : Fragment context r) (hb : b <+: r) (hne : b ≠ []) :
    Fragment context b := by
  obtain ⟨u, hu, hr, hru, hlt, -⟩ := h
  refine ⟨u, hu, hr, hb.trans hru, ?_, hne⟩
  rintro rfl
  exact hlt (hru.eq_of_length_le hb.length_le)

/-- A fragment and dots after it do not begin with a unit. -/
theorem Fragment.not_unit_prefix (h : Fragment context r) (hv : SafeUnit context v) :
    ¬ v <+: r ++ List.replicate n '.' := by
  intro hvr
  obtain ⟨u, hu, -, hru, hne, hr⟩ := h
  have hlong : ¬ v <+: r := by
    intro hvr
    obtain rfl := hv.eq_of_prefix hu (hvr.trans hru)
    exact hne (hru.eq_of_length_le hvr.length_le)
  rcases List.prefix_or_prefix_of_prefix hvr (List.prefix_append r _) with h | ⟨s, rfl⟩
  · exact hlong h
  · -- the unit would end in dots, and only the dot alone is a unit with a dot
    rcases s with _ | ⟨c, s⟩
    · exact hlong (by simp)
    · have hs : c :: s <+: List.replicate n '.' := List.prefix_append_right_inj r |>.mp hvr
      obtain rfl : c = '.' := List.eq_of_mem_replicate (hs.subset (List.mem_cons_self ..))
      refine hv.dot_not_mem ?_ (by simp)
      have := List.length_pos_iff.mpr hr
      simp
      omega

/-- A safe text, a fragment of the unit that stood at `p`, and dots. -/
def Broken (context : EscapeContext) (p : ℕ) (t : List Char) : Prop :=
  ∃ a r n, t = a ++ (r ++ List.replicate n '.') ∧ a.length = p ∧ Safe context a ∧
    Fragment context r

theorem Broken.not_safe (h : Broken context p t) : ¬ Safe context t := by
  obtain ⟨a, r, n, rfl, -, ha, hr⟩ := h
  intro h
  have hne : r ++ List.replicate n '.' ≠ [] := by
    obtain ⟨-, -, -, -, -, hne⟩ := hr
    simp [hne]
  obtain ⟨v, s, hv, -, he⟩ := (ha.of_append h).exists_unit hne
  exact hr.not_unit_prefix hv (he ▸ List.prefix_append v s)

/-- Behind its fragment a broken text has no units. -/
theorem Broken.not_dividedAt (h : Broken context p t) (hk : p < k) :
    ¬ DividedAt context t q k := by
  obtain ⟨a, r, n, rfl, rfl, ha, hr⟩ := h
  rintro ⟨a', u, b, he, rfl, ha', hu, -, h₁, h₂⟩
  have hat : a' ++ u <+: a ++ (r ++ List.replicate n '.') := he ▸ by simp
  rcases Nat.lt_or_ge a'.length a.length with h | h
  · have := SafeUnit.length_le ha' hu hat ha (List.prefix_append a _) h
    omega
  · obtain ⟨d, rfl⟩ : a <+: a' := List.prefix_of_prefix_length_le (List.prefix_append a _)
      ((List.prefix_append a' u).trans hat) h
    have hd : d ++ u <+: r ++ List.replicate n '.' := by
      rwa [List.append_assoc, List.prefix_append_right_inj] at hat
    obtain rfl | hne := eq_or_ne d []
    · exact hr.not_unit_prefix hu (by simpa using hd)
    · obtain ⟨v, s, hv, -, rfl⟩ := (ha.of_append ha').exists_unit hne
      exact hr.not_unit_prefix hv (List.prefix_append v _ |>.trans (by simpa using hd))

/-! ### Character references -/

/-- Whether a text ends in the beginning of a character reference. -/
def EndsInReference (t : List Char) : Prop :=
  ∃ before name, t = before ++ '&' :: name ∧ ∀ c ∈ name, Text.isReferenceChar c

theorem cutBefore_eq_self (h : ¬ EndsInReference kept) : Text.cutBefore kept rest = kept := by
  simp only [Text.cutBefore]
  split
  next before hd =>
    refine absurd ⟨before.reverse, (kept.reverse.takeWhile Text.isReferenceChar).reverse, ?_, ?_⟩ h
    · have := List.takeWhile_append_dropWhile (p := Text.isReferenceChar) (l := kept.reverse)
      rw [hd] at this
      simpa using (congrArg List.reverse this).symm
    · intro c hc
      exact List.mem_takeWhile_imp (List.mem_reverse.mp hc)
  next => rfl

theorem cutBefore_reference {before name more : List Char}
    (h : ∀ c ∈ name ++ more, Text.isReferenceChar c) (hne : name ++ more ≠ []) :
    Text.cutBefore (before ++ '&' :: name) (more ++ ';' :: rest) = before := by
  have hname : ∀ c ∈ name.reverse, Text.isReferenceChar c := by
    intro c hc
    exact h c (by simp [List.mem_reverse.mp hc])
  have hmore : ∀ c ∈ more, Text.isReferenceChar c := fun c hc => h c (by simp [hc])
  have hamp : Text.isReferenceChar '&' = false := by decide
  have hsemi : Text.isReferenceChar ';' = false := by decide
  have hpos : 0 < name.length + more.length := by
    rw [← List.length_append]
    exact List.length_pos_iff.mpr hne
  simp only [Text.cutBefore, Text.completesReference, List.reverse_append, List.reverse_cons,
    List.append_assoc, List.singleton_append]
  rw [List.dropWhile_append_of_pos hname, List.takeWhile_append_of_pos hname,
    List.dropWhile_append_of_pos hmore, List.takeWhile_append_of_pos hmore]
  simp [hamp, hsemi, hpos]

theorem SafeUnit.amp_mem (hu : SafeUnit context u) (h : '&' ∈ u) :
    u.head? = some '&' ∧ u.getLast? = some ';' := by
  have hhex : ∀ {c : Char}, isHexDigit c → '&' ≠ c := fun hc => isHexDigit_ne hc (by decide)
  cases hu with
  | @htmlReference name => exact ⟨rfl, List.getLast?_concat (l := '&' :: name)⟩
  | htmlPlain hc =>
    obtain rfl : '&' = _ := by simpa using h
    exact absurd hc (by decide)
  | htmlBreak => simp at h
  | jsPlain hc =>
    obtain rfl : '&' = _ := by simpa using h
    exact absurd hc (by decide)
  | jsSimple hc =>
    obtain rfl : '&' = _ := by simpa using h
    exact absurd hc (by decide)
  | jsHex ha hb => simp [hhex ha, hhex hb] at h
  | jsUnicode ha hb hc hd => simp [hhex ha, hhex hb, hhex hc, hhex hd] at h
  | uriPlain hc =>
    obtain rfl : '&' = _ := by simpa using h
    exact absurd hc (by decide)
  | uriTriple ha hb => simp [hhex ha, hhex hb] at h

/-- A unit of several characters begins with none that a reference has after its ampersand. -/
theorem SafeUnit.head_not_isReferenceChar (hu : SafeUnit context u) (h : 2 ≤ u.length) :
    ∃ c s, u = c :: s ∧ Text.isReferenceChar c = false := by
  cases hu with
  | htmlPlain | jsPlain | uriPlain => simp at h
  | htmlReference | htmlBreak | jsSimple | jsHex | jsUnicode | uriTriple =>
    exact ⟨_, _, rfl, by decide⟩

theorem Safe.not_endsInReference (h : Safe context t) : ¬ EndsInReference t := by
  induction h with
  | nil => rintro ⟨before, name, he, -⟩; simp at he
  | @cons u t hu _ ih =>
    rintro ⟨before, name, he, hname⟩
    rcases List.append_eq_append_iff.mp he with ⟨d, rfl, rfl⟩ | ⟨d, rfl, hd⟩
    · exact ih ⟨d, name, rfl, hname⟩
    · rcases d with _ | ⟨c, s⟩
      · exact ih ⟨[], name, by simpa using hd.symm, hname⟩
      · -- the ampersand lies in the unit, whose semicolon would belong to the name
        obtain ⟨rfl, rfl⟩ := List.cons_eq_cons.mp hd
        have hlast := (hu.amp_mem (by simp)).2
        have hmem : ';' ∈ s := by
          rcases List.eq_nil_or_concat s with rfl | ⟨s, c, rfl⟩
          · simp at hlast
          · have : c = ';' := by
              rw [List.concat_eq_append, ← List.cons_append, ← List.append_assoc,
                List.getLast?_concat] at hlast
              exact Option.some.inj hlast
            simp [this]
        exact absurd (hname ';' (by simp [hmem])) (by decide)

theorem Fragment.not_endsInReference (h : Fragment context r) :
    ¬ EndsInReference (a ++ (r ++ List.replicate n '.')) := by
  obtain ⟨u, hu, hamp, hru, hne, hr⟩ := h
  have hlen : 2 ≤ u.length := by
    have h₁ := List.length_pos_iff.mpr hr
    have h₂ := hru.length_le
    have h₃ : r.length ≠ u.length := fun he => hne (hru.eq_of_length he)
    omega
  obtain ⟨c, s, rfl, hc⟩ := hu.head_not_isReferenceChar hlen
  have hw : '&' ∉ r ++ List.replicate n '.' := by
    intro hm
    rcases List.mem_append.mp hm with hm | hm
    · exact hamp (hu.amp_mem (hru.subset hm)).1
    · exact absurd (List.eq_of_mem_replicate hm) (by decide)
  obtain ⟨d, w, rfl⟩ := List.exists_cons_of_ne_nil hr
  obtain ⟨rfl, -⟩ := List.cons_prefix_cons.mp hru
  rintro ⟨before, name, he, hname⟩
  rcases List.append_eq_append_iff.mp he with ⟨e, -, hd⟩ | ⟨e, -, hd⟩
  · exact hw (by rw [hd]; simp)
  · rcases e with _ | ⟨x, e⟩
    · exact hw (by rw [List.nil_append] at hd; rw [← hd]; simp)
    · obtain ⟨rfl, rfl⟩ := List.cons_eq_cons.mp hd
      rw [hname d (by simp)] at hc
      exact absurd hc (by simp)

/-! ### Cuts -/

/-- A cut inside a unit that an ampersand begins goes back to before the unit. -/
theorem SafeUnit.cutBefore_take (hu : SafeUnit context u) (hr : u.head? = some '&')
    (hw : Safe context a) (hi : 0 < k) (hk : k < u.length) :
    Text.cutBefore (a ++ u.take k) (u.drop k ++ b) = a := by
  cases hu with
  | @htmlReference name hname =>
    obtain ⟨j, rfl⟩ : ∃ j, k = j + 1 := ⟨k - 1, by omega⟩
    have hj : j ≤ name.length := by
      simp at hk
      omega
    rw [List.take_succ_cons, List.drop_succ_cons, List.take_append_of_le_length hj,
      List.drop_append_of_le_length hj, List.append_assoc, List.singleton_append,
      cutBefore_reference]
    · simpa using hname.isReferenceChar
    · simpa using hname.ne_nil
  | htmlPlain | jsPlain | uriPlain =>
    simp at hk
    omega
  | htmlBreak | jsSimple | jsHex | jsUnicode | uriTriple => simp at hr

/-- The beginning of any other unit is a fragment. -/
theorem SafeUnit.fragment_take (hu : SafeUnit context u) (hr : u.head? ≠ some '&') (hi : 0 < k)
    (hk : k < u.length) : Fragment context (u.take k) := by
  have hlength : (u.take k).length = k := List.length_take_of_le (Nat.le_of_lt hk)
  refine ⟨u, hu, hr, List.take_prefix k u, fun he => ?_, fun he => ?_⟩
  · rw [he] at hlength
    omega
  · rw [he, List.length_nil] at hlength
    omega

/-- A cut inside the safe part of a text. -/
theorem cut_cases (ha : Safe context a) (hk : k ≤ a.length) :
    (Safe context (Text.cutBefore ((a ++ b).take k) ((a ++ b).drop k)) ∧
        ∀ p, ¬ DividedAt context (a ++ b) p k) ∨
      ∃ p, DividedAt context (a ++ b) p k ∧
        ∃ w r, Text.cutBefore ((a ++ b).take k) ((a ++ b).drop k) = w ++ r ∧ w.length = p ∧
          Safe context w ∧ Fragment context r := by
  rcases ha.split hk with ⟨w, d, rfl, hw, rfl⟩ | ⟨w, u, d, rfl, hw, hu, h₁, h₂⟩
  · left
    rw [List.append_assoc, List.take_left, cutBefore_eq_self hw.not_endsInReference]
    exact ⟨hw, fun p => not_dividedAt_length hw⟩
  · obtain ⟨i, rfl⟩ : ∃ i, k = w.length + i := ⟨k - w.length, by omega⟩
    have hi : 0 < i ∧ i < u.length := by omega
    have htake : (w ++ (u ++ d) ++ b).take (w.length + i) = w ++ u.take i := by
      rw [List.append_assoc, List.take_length_add_append, List.append_assoc,
        List.take_append_of_le_length (Nat.le_of_lt hi.2)]
    have hdrop : (w ++ (u ++ d) ++ b).drop (w.length + i) = u.drop i ++ (d ++ b) := by
      rw [List.append_assoc, List.drop_length_add_append, List.append_assoc,
        List.drop_append_of_le_length (Nat.le_of_lt hi.2)]
    rw [htake, hdrop]
    by_cases hr : u.head? = some '&'
    · left
      rw [hu.cutBefore_take hr hw hi.1 hi.2]
      exact ⟨hw, fun p => by simpa using not_dividedAt_reference (b := d ++ b) hw hu hr h₁ h₂⟩
    · right
      have hf := hu.fragment_take hr hi.1 hi.2
      refine ⟨w.length, ⟨w, u, d ++ b, by simp, rfl, hw, hu, hr, h₁, h₂⟩, w, u.take i, ?_, rfl, hw,
        hf⟩
      exact cutBefore_eq_self (by simpa using hf.not_endsInReference (a := w) (n := 0))

end TemplateLang.Escaping
