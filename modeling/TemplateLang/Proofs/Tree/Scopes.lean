import TemplateLang.Proofs.Tree.Loaded

/-! Passes that carry what the last node of some depth said. In a loaded tree this is what the
nearest such node above says, since nodes of one depth do not lie below each other. -/

namespace TemplateLang.Tree

variable {t t' : Tree} {a n p x : NodeRef} {P : NodeKind → Bool}

/-! ### Nearest ancestors -/

theorem nearestAncestor_of_orphan (hp : t.parent n = none) : t.nearestAncestor n P = none := by
  rw [nearestAncestor, Consistent.path_of_orphan hp]
  rfl

namespace Consistent

theorem nearestAncestor_of_parent (h : t.Consistent) (hp : t.parent n = some p) :
    t.nearestAncestor n P = (t.path p).find? fun a => P (t.kind a) := by
  rw [nearestAncestor, h.path_of_parent hp]
  rfl

theorem of_nearestAncestor (h : t.Consistent) (ha : t.nearestAncestor n P = some a) :
    P (t.kind a) ∧ ∃ p, t.parent n = some p ∧ t.Reaches a p := by
  cases hp : t.parent n with
  | none =>
    rw [nearestAncestor_of_orphan hp] at ha
    cases ha
  | some p =>
    rw [h.nearestAncestor_of_parent hp] at ha
    exact ⟨by simpa using List.find?_some ha, p, rfl, h.mem_path.mp (List.mem_of_find?_eq_some ha)⟩

theorem exists_nearestAncestor (h : t.Consistent) (hp : t.parent n = some p)
    (ha : t.Reaches a p) (hP : P (t.kind a)) : ∃ b, t.nearestAncestor n P = some b := by
  rw [h.nearestAncestor_of_parent hp]
  refine Option.isSome_iff_exists.mp (List.find?_isSome.mpr ⟨a, h.mem_path.mpr ha, ?_⟩)
  simpa using hP

end Consistent

theorem SameShape.path (hs : SameShape t t') (n : NodeRef) : t'.path n = t.path n := by
  have hwithin : ∀ k n, t'.pathWithin k n = t.pathWithin k n := by
    intro k
    induction k with
    | zero => exact fun _ => rfl
    | succ k ih =>
      intro n
      rw [pathWithin, pathWithin, hs.parent]
      split
      · rfl
      · rw [ih]
  rw [Tree.path, Tree.path, hs.size, hwithin]

theorem SameShape.reaches (hs : SameShape t t') {a x : NodeRef} : t'.Reaches a x ↔ t.Reaches a x :=
  ⟨reaches_of_parent_eq fun y _ => hs.parent y,
    reaches_of_parent_eq fun y _ => (hs.parent y).symm⟩

theorem SameShape.nearestAncestor (hs : SameShape t t')
    (hP : ∀ a, P (t'.kind a) = P (t.kind a)) (n : NodeRef) :
    t'.nearestAncestor n P = t.nearestAncestor n P := by
  rw [Tree.nearestAncestor, Tree.nearestAncestor, hs.path]
  simp only [hP]

theorem Loaded.of_sameShape (h : t.Loaded) (hs : SameShape t t')
    (hl : ∀ x, t'.level x = t.level x) : t'.Loaded where
  consistent := hs.consistent h.consistent
  leveled := h.leveled.of_sameShape hs hl
  attached n hn hroot := by
    rw [hs.parent]
    exact h.attached n (hs.has.mp hn) hroot

/-! ### Carried values -/

section

variable {σ : Type}

/-- What the nearest ancestor that says anything says. -/
def inherited (t : Tree) (value? : NodeKind → Option σ) (n : NodeRef) : Option σ :=
  (t.nearestAncestor n fun k => (value? k).isSome).bind fun a => value? (t.kind a)

/-- The nodes of a depth above the root of bodies say a value, which a pass carries on and uses
below that depth only. -/
structure Carries (step : σ → NodeKind → σ × NodeKind) (value? : NodeKind → Option σ) (d : ℕ) :
    Prop where
  depth_lt : d < 3
  sets : ∀ k, (value? k).isSome ↔ k.level.depth = d
  carry : ∀ s k, (step s k).1 = (value? k).getD s
  blind : ∀ s s' k, k.level.depth ≤ d → (step s k).2 = (step s' k).2
  level : ∀ s k, (step s k).2.level = k.level

variable {step : σ → NodeKind → σ × NodeKind} {value? : NodeKind → Option σ} {d : ℕ}
  {enters : NodeKind → Bool}

/-- The state is what every node above says that says anything. -/
def SaidAbove (t : Tree) (value? : NodeKind → Option σ) (n : NodeRef) (s : σ) : Prop :=
  ∀ a v, t.Reaches a n → value? (t.kind a) = some v → s = v

/-- Below the depth a node of the depth lies strictly above, and the state is what it says. -/
theorem Loaded.inherited_eq (h : t.Loaded) (hc : Carries step value? d) {s : σ}
    (hp : t.parent x = some p) (hs : SaidAbove t value? p s) (hlt : d < (t.level x).depth) :
    t.inherited value? x = some s := by
  obtain ⟨a, ha, had⟩ := h.leveled.exists_depth_eq (h.reaches_root (has_of_parent hp)) hlt.le
  have hap : t.Reaches a p := by
    rcases ha.eq_or_parent with rfl | ⟨q, hq, haq⟩
    · omega
    · obtain rfl : p = q := Option.some.inj (hp.symm.trans hq)
      exact haq
  obtain ⟨b, hb⟩ := h.consistent.exists_nearestAncestor
    (P := fun k => (value? k).isSome) hp hap ((hc.sets _).mpr had)
  obtain ⟨hsome, q, hq, hbq⟩ := h.consistent.of_nearestAncestor hb
  obtain ⟨v, hv⟩ := Option.isSome_iff_exists.mp hsome
  obtain rfl : p = q := Option.some.inj (hp.symm.trans hq)
  rw [hs b v hbq hv, inherited, hb, Option.bind_some, hv]

/-- Below a node of the depth there is no other, so that a step keeps what was said above. -/
theorem Loaded.saidAbove_step (h : t.Loaded) (hc : Carries step value? d) {s : σ}
    (hp : t.parent x = some p) (hs : SaidAbove t value? p s) :
    SaidAbove t value? x (step s (t.kind x)).1 := by
  intro a v ha hv
  rw [hc.carry]
  rcases ha.eq_or_parent with rfl | ⟨q, hq, haq⟩
  · rw [hv, Option.getD_some]
  · obtain rfl : p = q := Option.some.inj (hp.symm.trans hq)
    have hda : (t.level a).depth = d := (hc.sets _).mp (by rw [hv]; rfl)
    have hdx : (t.level x).depth ≠ d := by
      have hlt := hc.depth_lt
      rcases h.leveled.depth_le_of_reaches ha with rfl | hdepth
      · exact absurd haq (h.consistent.not_reaches_parent hp)
      · omega
    have hnone : value? (t.kind x) = none := by
      rw [← Option.not_isSome_iff_eq_none, hc.sets]
      exact hdx
    rw [hnone, Option.getD_none]
    exact hs a v haq hv

theorem Loaded.scoped (h : t.Loaded) (hc : Carries step value? d)
    (leaf : ∀ k, enters k = false → k.level = .leaf) (default : σ) :
    Scoped t enters step
      (fun n => (step ((t.inherited value? n).getD default) (t.kind n)).2)
      (SaidAbove t value?) where
  leaf x hx := h.leveled.children_eq_nil h.consistent (leaf _ hx)
  enter x p s hp hs := by
    refine ⟨?_, h.saidAbove_step hc hp hs⟩
    rcases Nat.lt_or_ge d (t.level x).depth with hlt | hle
    · rw [h.inherited_eq hc hp hs hlt, Option.getD_some]
    · exact hc.blind _ _ _ hle
  leave x p s hp hs a v ha hv := hs a v (.child ha hp) hv

/-- The kinds after a pass that carries values. -/
theorem Loaded.kind_mapKinds (h : t.Loaded) (hc : Carries step value? d)
    (leaf : ∀ k, enters k = false → k.level = .leaf) (s : σ) (hn : t.Has n) :
    (t.mapKinds enters step s).2.kind n =
      (step ((t.inherited value? n).getD s) (t.kind n)).2 := by
  refine h.consistent.kind_mapKinds (h.scoped hc leaf s) ?_ ?_ (h.reaches_root hn)
  · rw [inherited, nearestAncestor_of_orphan h.consistent.root_parent]
    rfl
  · intro a v ha hv
    rcases ha.eq_or_parent with rfl | ⟨p, hp, -⟩
    · rw [hc.carry, hv, Option.getD_some]
    · rw [h.consistent.root_parent] at hp
      cases hp

/-- A node below the depth lies below one that says a value. -/
theorem Loaded.exists_inherited (h : t.Loaded) (hc : Carries step value? d) (hn : t.Has n)
    (hd : d < (t.level n).depth) :
    ∃ a v, (t.nearestAncestor n fun k => (value? k).isSome) = some a ∧
      value? (t.kind a) = some v ∧ t.inherited value? n = some v := by
  obtain ⟨a, ha, had⟩ := h.leveled.exists_depth_eq (h.reaches_root hn) hd.le
  rcases ha.eq_or_parent with rfl | ⟨p, hp, hap⟩
  · omega
  · obtain ⟨b, hb⟩ := h.consistent.exists_nearestAncestor
      (P := fun k => (value? k).isSome) hp hap ((hc.sets _).mpr had)
    obtain ⟨hsome, -⟩ := h.consistent.of_nearestAncestor hb
    obtain ⟨v, hv⟩ := Option.isSome_iff_exists.mp hsome
    exact ⟨b, v, hb, hv, by rw [inherited, hb, Option.bind_some, hv]⟩

theorem level_mapKinds (hlevel : ∀ s k, (step s k).2.level = k.level) (s : σ) (n : NodeRef) :
    (t.mapKinds enters step s).2.level n = t.level n := by
  rcases kind_mapKinds_cases t enters step s n with h | ⟨s', h⟩
  · rw [Tree.level, h]
    rfl
  · rw [Tree.level, h, hlevel]
    rfl

theorem Loaded.mapKinds (h : t.Loaded) (hlevel : ∀ s k, (step s k).2.level = k.level) (s : σ) :
    (t.mapKinds enters step s).2.Loaded :=
  h.of_sameShape (sameShape_mapKinds t enters step s) (level_mapKinds hlevel s)

theorem Opened.mapKinds (h : t.Opened) (hlevel : ∀ s k, (step s k).2.level = k.level)
    (hopens : ∀ s k, (step s k).2.opensBlock = k.opensBlock) (s : σ) :
    (t.mapKinds enters step s).2.Opened := by
  refine h.of_sameShape (sameShape_mapKinds t enters step s) (level_mapKinds hlevel s) fun n => ?_
  rcases kind_mapKinds_cases t enters step s n with hk | ⟨s', hk⟩
  · rw [hk]
  · rw [hk, hopens]

end

end TemplateLang.Tree
