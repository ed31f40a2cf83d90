import Mathlib.Data.Finset.Card
import Mathlib.Data.Finset.Range
import TemplateLang.Proofs.Tree.Arena

/-! Consistent trees. Parents and children tell the same story, the root has no parent, and
parents have lower rank than their children. Counting the nodes of lower rank bounds the
ranks by the size of the arena, so the views and paths of a tree are whole: a view holds
everything that can be reached, and a path ends at a node without a parent. -/

namespace TemplateLang.Tree

variable {t : Tree} {a b c d n p x : NodeRef}

structure Consistent (t : Tree) : Prop where
  mem_children : ∀ p c, c ∈ t.children p ↔ t.parent c = some p
  nodup_children : ∀ p, (t.children p).Nodup
  has_root : t.Has root
  root_parent : t.parent root = none
  acyclic : ∃ rank : NodeRef → ℕ, ∀ n p, t.parent n = some p → rank p < rank n

/-- `x` is `a` or lies below it. -/
inductive Reaches (t : Tree) (a : NodeRef) : NodeRef → Prop
  | refl : Reaches t a a
  | child {p n : NodeRef} (hp : Reaches t a p) (hn : t.parent n = some p) : Reaches t a n

theorem Reaches.trans (hab : t.Reaches a b) (hbc : t.Reaches b c) : t.Reaches a c := by
  induction hbc with
  | refl => exact hab
  | child _ hn ih => exact .child ih hn

theorem Reaches.of_parent (h : t.parent n = some p) : t.Reaches p n := .child .refl h

/-- The last step of a way down. -/
theorem Reaches.eq_or_parent (h : t.Reaches a n) :
    a = n ∨ ∃ p, t.parent n = some p ∧ t.Reaches a p := by
  cases h with
  | refl => exact .inl rfl
  | child hp hn => exact .inr ⟨_, hn, hp⟩

/-- Nodes above the same node are above each other. -/
theorem Reaches.total (ha : t.Reaches a n) (hb : t.Reaches b n) :
    t.Reaches a b ∨ t.Reaches b a := by
  induction ha with
  | refl => exact .inr hb
  | @child p n hp hn ih =>
    rcases hb.eq_or_parent with rfl | ⟨q, hq, hbq⟩
    · exact .inl (.child hp hn)
    · obtain rfl : p = q := Option.some.inj (hn.symm.trans hq)
      exact ih hbq

theorem Reaches.has (h : t.Reaches a n) (ha : t.Has a) : t.Has n := by
  cases h with
  | refl => exact ha
  | child _ hn => exact has_of_parent hn

namespace Consistent

/-- Ranks can be chosen below the size of the arena. -/
theorem exists_rank_le (h : t.Consistent) :
    ∃ rank : NodeRef → ℕ, (∀ n p, t.parent n = some p → rank p < rank n) ∧
      (∀ n, rank n ≤ t.nodes.size) ∧ ∀ n, t.Has n → rank n < t.nodes.size := by
  obtain ⟨rank, hrank⟩ := h.acyclic
  let below (n : NodeRef) : Finset ℕ :=
    (Finset.range t.nodes.size).filter fun i => rank ⟨i⟩ < rank n
  have hsub (n : NodeRef) : below n ⊆ Finset.range t.nodes.size := Finset.filter_subset ..
  refine ⟨fun n => (below n).card, fun n p hp => ?_, fun n => ?_, fun n hn => ?_⟩
  · -- what is below the parent is below the node, and the parent itself is too
    have hlt := hrank n p hp
    have hhas : t.Has p := has_of_mem_children ((h.mem_children p n).mpr hp)
    refine Finset.card_lt_card (Finset.ssubset_iff_of_subset ?_ |>.mpr ⟨p.index, ?_, ?_⟩)
    · intro i hi
      rw [Finset.mem_filter] at hi ⊢
      exact ⟨hi.1, hi.2.trans hlt⟩
    · exact Finset.mem_filter.mpr ⟨Finset.mem_range.mpr hhas, hlt⟩
    · intro hi
      exact Nat.lt_irrefl _ (Finset.mem_filter.mp hi).2
  · simpa using Finset.card_le_card (hsub n)
  · have hmem : n.index ∈ Finset.range t.nodes.size := Finset.mem_range.mpr hn
    have hss : below n ⊂ Finset.range t.nodes.size := by
      refine (Finset.ssubset_iff_of_subset (hsub n)).mpr ⟨n.index, hmem, fun hi => ?_⟩
      exact Nat.lt_irrefl _ (Finset.mem_filter.mp hi).2
    simpa using Finset.card_lt_card hss

/-- What holds of a node when it holds of its children holds of every node. -/
theorem children_induction (h : t.Consistent) {P : NodeRef → Prop}
    (step : ∀ n, (∀ c ∈ t.children n, P c) → P n) (n : NodeRef) : P n := by
  obtain ⟨rank, hrank, hle, -⟩ := h.exists_rank_le
  suffices ∀ k n, t.nodes.size ≤ rank n + k → P n from this t.nodes.size n (by omega)
  intro k
  induction k with
  | zero =>
    intro n hk
    refine step n fun c hc => ?_
    have := hrank c n ((h.mem_children n c).mp hc)
    have := hle c
    omega
  | succ k ih =>
    intro n hk
    refine step n fun c hc => ih c ?_
    have := hrank c n ((h.mem_children n c).mp hc)
    omega

/-- What holds of a node when it holds of its parent holds of every node. -/
theorem parent_induction (h : t.Consistent) {P : NodeRef → Prop}
    (step : ∀ n, (∀ p, t.parent n = some p → P p) → P n) (n : NodeRef) : P n := by
  obtain ⟨rank, hrank⟩ := h.acyclic
  suffices ∀ k n, rank n < k → P n from this _ n (Nat.lt_succ_self _)
  intro k
  induction k with
  | zero => exact fun n hk => absurd hk (Nat.not_lt_zero _)
  | succ k ih =>
    refine fun n hk => step n fun p hp => ih p ?_
    have := hrank n p hp
    omega

/-! ### Ways down -/

theorem reaches_antisymm (h : t.Consistent) (hab : t.Reaches a b) (hba : t.Reaches b a) :
    a = b := by
  obtain ⟨rank, hrank⟩ := h.acyclic
  have hle : ∀ {a b}, t.Reaches a b → a = b ∨ rank a < rank b := by
    intro a b hab
    induction hab with
    | refl => exact .inl rfl
    | child _ hn ih =>
      have := hrank _ _ hn
      rcases ih with rfl | ih
      · exact .inr this
      · exact .inr (ih.trans this)
  rcases hle hab with hab | hab
  · exact hab
  · rcases hle hba with hba | hba
    · exact hba.symm
    · omega

theorem not_reaches_parent (h : t.Consistent) (hp : t.parent n = some p) : ¬ t.Reaches n p := by
  intro hnp
  obtain rfl := h.reaches_antisymm hnp (.of_parent hp)
  obtain ⟨rank, hrank⟩ := h.acyclic
  exact Nat.lt_irrefl _ (hrank _ _ hp)

/-- The first step of a way down. -/
theorem reaches_iff (h : t.Consistent) :
    t.Reaches a n ↔ a = n ∨ ∃ c ∈ t.children a, t.Reaches c n := by
  constructor
  · intro han
    induction han with
    | refl => exact .inl rfl
    | @child p n hp hn ih =>
      rcases ih with rfl | ⟨c, hc, hcp⟩
      · exact .inr ⟨n, (h.mem_children _ n).mpr hn, .refl⟩
      · exact .inr ⟨c, hc, .child hcp hn⟩
  · rintro (rfl | ⟨c, hc, hcn⟩)
    · exact .refl
    · exact (Reaches.of_parent ((h.mem_children a c).mp hc)).trans hcn

/-- Nothing lies below two siblings. -/
theorem siblings_disjoint (h : t.Consistent) (hc : c ∈ t.children p) (hd : d ∈ t.children p)
    (hne : c ≠ d) (hcx : t.Reaches c x) : ¬ t.Reaches d x := by
  have hbelow : ∀ {c d}, c ∈ t.children p → d ∈ t.children p → c ≠ d → ¬ t.Reaches c d := by
    intro c d hc hd hne hcd
    rcases hcd.eq_or_parent with rfl | ⟨q, hq, hcq⟩
    · exact hne rfl
    · obtain rfl : q = p := Option.some.inj (hq.symm.trans ((h.mem_children p d).mp hd))
      exact h.not_reaches_parent ((h.mem_children q c).mp hc) hcq
  intro hdx
  rcases hcx.total hdx with hcd | hdc
  · exact hbelow hc hd hne hcd
  · exact hbelow hd hc hne.symm hdc

/-! ### Paths -/

theorem pathWithin_eq (rank : NodeRef → ℕ)
    (hrank : ∀ n p, t.parent n = some p → rank p < rank n) {k l : ℕ} (hk : rank n ≤ k)
    (hl : rank n ≤ l) : t.pathWithin k n = t.pathWithin l n := by
  induction k generalizing l n with
  | zero =>
    cases l with
    | zero => rfl
    | succ l =>
      cases hp : t.parent n with
      | none => simp [pathWithin, hp]
      | some p =>
        have := hrank n p hp
        omega
  | succ k ih =>
    cases hp : t.parent n with
    | none => cases l <;> simp [pathWithin, hp]
    | some p =>
      have := hrank n p hp
      cases l with
      | zero => omega
      | succ l =>
        simp only [pathWithin, hp]
        rw [ih (l := l) (by omega) (by omega)]

theorem path_of_parent (h : t.Consistent) (hp : t.parent n = some p) :
    t.path n = n :: t.path p := by
  obtain ⟨rank, hrank, hle, -⟩ := h.exists_rank_le
  have hn := hrank n p hp
  have hsize := hle n
  rw [path, pathWithin_eq rank hrank (l := t.nodes.size + 1) (hle n) (by omega), pathWithin]
  simp only [hp]
  rfl

theorem path_of_orphan (hp : t.parent n = none) : t.path n = [n] := by
  rw [path]
  cases t.nodes.size with
  | zero => rfl
  | succ k => simp [pathWithin, hp]

theorem mem_path (h : t.Consistent) : a ∈ t.path n ↔ t.Reaches a n := by
  induction n using h.parent_induction with
  | step n ih =>
    cases hp : t.parent n with
    | none =>
      rw [path_of_orphan hp, List.mem_singleton]
      refine ⟨fun ha => ha ▸ .refl, fun ha => ?_⟩
      rcases ha.eq_or_parent with ha | ⟨p, hp', -⟩
      · exact ha
      · rw [hp] at hp'
        exact absurd hp' (by simp)
    | some p =>
      rw [h.path_of_parent hp, List.mem_cons, ih p hp]
      constructor
      · rintro (rfl | ha)
        · exact .refl
        · exact .child ha hp
      · intro ha
        rcases ha.eq_or_parent with ha | ⟨q, hq, haq⟩
        · exact .inl ha
        · obtain rfl : p = q := Option.some.inj (hp.symm.trans hq)
          exact .inr haq

theorem isAncestorOrSelf_iff (h : t.Consistent) : t.isAncestorOrSelf a n ↔ t.Reaches a n := by
  rw [isAncestorOrSelf, List.contains_iff_mem, h.mem_path]

end Consistent

end TemplateLang.Tree
