import TemplateLang.Proofs.Tree.Consistent

/-! Moving nodes in consistent trees. Taking a node out, inserting one that is out, and putting
nodes in the place of another keep a tree consistent and keep its nodes as they are; each says
for all nodes at once what their parents and children are afterwards. -/

namespace TemplateLang.Tree

variable {t t' : Tree} {n p r x : NodeRef} {rs pre post : List NodeRef} {i : ℕ}

/-- The same nodes, in places that may differ. -/
structure SameNodes (t t' : Tree) : Prop where
  kind : ∀ x, t'.kind x = t.kind x
  serial : ∀ x, t'.serial x = t.serial x
  size : t'.nodes.size = t.nodes.size

theorem SameNodes.refl (t : Tree) : SameNodes t t := ⟨fun _ => rfl, fun _ => rfl, rfl⟩

theorem SameNodes.trans {t'' : Tree} (h : SameNodes t t') (h' : SameNodes t' t'') :
    SameNodes t t'' where
  kind x := (h'.kind x).trans (h.kind x)
  serial x := (h'.serial x).trans (h.serial x)
  size := h'.size.trans h.size

theorem SameNodes.has (h : SameNodes t t') : t'.Has n ↔ t.Has n := by
  rw [Has, Has, h.size]

theorem sameNodes_detach (t : Tree) (n : NodeRef) : SameNodes t (t.detach n).2 := by
  unfold detach
  split
  · exact .refl t
  · simp only
    split
    · exact ⟨by simp, by simp, by simp⟩
    · exact ⟨by simp, by simp, by simp⟩

theorem sameNodes_insertChild (h : t.insertChild p i r = .ok t') : SameNodes t t' := by
  unfold insertChild at h
  split_ifs at h
  obtain rfl := Except.ok.inj h
  exact (sameNodes_detach t r).trans ⟨by simp, by simp, by simp⟩

theorem sameNodes_insertAll (t : Tree) (p : NodeRef) (i : ℕ) (rs : List NodeRef) :
    SameNodes t (t.insertAll p i rs).2 := by
  induction rs generalizing t i with
  | nil => exact .refl t
  | cons r rs ih =>
    rw [insertAll]
    split
    · next t₁ h => exact (sameNodes_insertChild h).trans (ih t₁ (i + 1))
    · exact .refl t

theorem sameNodes_foldl_detach (t : Tree) (rs : List NodeRef) :
    SameNodes t (rs.foldl (fun t r => (t.detach r).2) t) := by
  induction rs generalizing t with
  | nil => exact .refl t
  | cons r rs ih => exact (sameNodes_detach t r).trans (ih _)

/-- Replacing a node, even when it is refused, leaves all nodes what they are. -/
theorem sameNodes_replaceWith (t : Tree) (n : NodeRef) (rs : List NodeRef) :
    SameNodes t (t.replaceWith n rs).2 := by
  unfold replaceWith
  split
  · exact .refl t
  · split
    · exact .refl t
    · have hfold := sameNodes_foldl_detach t rs
      have hdetach := sameNodes_detach (rs.foldl (fun t r => (t.detach r).2) t) n
      simp only
      split
      · next h => exact hfold.trans (by rw [h] at hdetach; exact hdetach)
      · next h =>
        refine (hfold.trans ?_).trans (sameNodes_insertAll ..)
        rw [h] at hdetach
        exact hdetach

/-- Ways down to a node depend on the parents above it alone. -/
theorem reaches_of_parent_eq (h : ∀ y, t.Reaches y x → t'.parent y = t.parent y)
    (hn : t'.Reaches n x) : t.Reaches n x := by
  induction hn with
  | refl => exact .refl
  | @child q y _ hq ih =>
    have hp : t.parent y = some q := h y .refl ▸ hq
    exact .child (ih fun z hz => h z (.child hz hp)) hp

/-! ### Taking nodes out -/

theorem detach_of_orphan (hp : t.parent n = none) : t.detach n = (none, t) := by
  rw [detach, hp]

namespace Consistent

theorem detach_of_parent (h : t.Consistent) (hp : t.parent n = some p) :
    t.detach n = (some ((t.children p).idxOf n),
      (t.setParent n none).setChildren p ((t.children p).erase n)) := by
  have hmem : n ∈ t.children p := (h.mem_children p n).mpr hp
  have hidx : (t.children p).idxOf? n = some ((t.children p).idxOf n) :=
    List.findIdx?_eq_some_of_exists ⟨n, hmem, by simp⟩
  rw [detach, hp]
  simp only [children_setParent, hidx]
  rw [List.erase_eq_eraseIdx, hidx]

theorem parent_detach (h : t.Consistent) (n x : NodeRef) :
    (t.detach n).2.parent x = if x = n then none else t.parent x := by
  cases hp : t.parent n with
  | none =>
    rw [detach_of_orphan hp]
    split_ifs with hx
    · rw [hx, hp]
    · rfl
  | some p =>
    rw [h.detach_of_parent hp, parent_setChildren, parent_setParent]
    simp only [has_of_parent hp, and_true]

theorem children_detach (h : t.Consistent) (n x : NodeRef) :
    (t.detach n).2.children x = (t.children x).erase n := by
  have herase : t.parent n ≠ some x → (t.children x).erase n = t.children x :=
    fun hp => List.erase_of_not_mem fun hn => hp ((h.mem_children x n).mp hn)
  cases hp : t.parent n with
  | none =>
    rw [detach_of_orphan hp, herase (by simp [hp])]
  | some p =>
    have hhas : t.Has p := has_of_mem_children ((h.mem_children p n).mpr hp)
    rw [h.detach_of_parent hp, children_setChildren]
    split_ifs with hx
    · rw [hx.1]
    · have hne : x ≠ p := fun he => hx ⟨he, by simpa [Has] using hhas⟩
      rw [children_setParent, herase]
      rw [hp]
      exact fun he => hne (Option.some.inj he).symm

theorem detach (h : t.Consistent) (n : NodeRef) : (t.detach n).2.Consistent where
  mem_children q c := by
    rw [h.children_detach, h.parent_detach, (h.nodup_children q).mem_erase_iff,
      h.mem_children]
    split_ifs with hc <;> simp [hc]
  nodup_children q := by
    rw [h.children_detach]
    exact (h.nodup_children q).erase n
  has_root := (sameNodes_detach t n).has.mpr h.has_root
  root_parent := by
    rw [h.parent_detach, h.root_parent]
    exact ite_self none
  acyclic := by
    obtain ⟨rank, hrank⟩ := h.acyclic
    refine ⟨rank, fun y q hq => hrank y q ?_⟩
    rw [h.parent_detach] at hq
    split_ifs at hq
    exact hq

/-! ### Taking several nodes out -/

theorem foldl_detach (h : t.Consistent) (rs : List NodeRef) :
    let t' := rs.foldl (fun t r => (t.detach r).2) t
    t'.Consistent ∧ (∀ x, t'.parent x = if x ∈ rs then none else t.parent x) ∧
      ∀ x, t'.children x = (t.children x).filter (· ∉ rs) := by
  induction rs generalizing t with
  | nil => exact ⟨h, by simp, by simp⟩
  | cons r rs ih =>
    obtain ⟨hc, hparent, hchildren⟩ := ih (h.detach r)
    refine ⟨hc, fun x => ?_, fun x => ?_⟩
    · refine (hparent x).trans ?_
      rw [h.parent_detach]
      by_cases hr : x = r
      · simp [hr]
      · simp [hr]
    · refine (hchildren x).trans ?_
      rw [h.children_detach, (h.nodup_children x).erase_eq_filter, List.filter_filter]
      refine List.filter_congr fun c _ => ?_
      by_cases hr : c = r
      · simp [hr]
      · simp [hr]

end Consistent

/-! ### Putting nodes in -/

/-- A node that is out can be put below a container that it is not above. -/
structure Placeable (t : Tree) (p r : NodeRef) : Prop where
  has : t.Has r
  ne_root : r ≠ root
  orphan : t.parent r = none
  not_above : ¬ t.Reaches r p

/-- The tree in which `r` stands at index `i` below `p`. -/
def placed (t : Tree) (p : NodeRef) (i : ℕ) (r : NodeRef) : Tree :=
  (t.setChildren p ((t.children p).insertIdx i r)).setParent r (some p)

theorem Consistent.insertChild_eq (h : t.Consistent) (hp : (t.kind p).isContainer)
    (hr : Placeable t p r) (hi : i ≤ (t.children p).length) :
    t.insertChild p i r = .ok (t.placed p i r) := by
  have hcycle : t.isAncestorOrSelf r p = false := by
    rw [Bool.eq_false_iff, ne_eq, h.isAncestorOrSelf_iff]
    exact hr.not_above
  have hother : t.otherChildren p r = (t.children p).length := by
    rw [otherChildren, hr.orphan]
    simp
  simp only [insertChild, hp, hr.ne_root, hcycle, hother, detach_of_orphan hr.orphan]
  simp [Nat.not_lt.mpr hi, placed]

theorem sameNodes_placed (t : Tree) (p : NodeRef) (i : ℕ) (r : NodeRef) :
    SameNodes t (t.placed p i r) :=
  ⟨by simp [placed], by simp [placed], by simp [placed]⟩

theorem parent_placed (hr : t.Has r) (x : NodeRef) :
    (t.placed p i r).parent x = if x = r then some p else t.parent x := by
  have hhas : (t.setChildren p ((t.children p).insertIdx i r)).Has r := by simpa [Has] using hr
  rw [placed, parent_setParent, parent_setChildren]
  simp only [hhas, and_true]

theorem children_placed (hp : t.Has p) (x : NodeRef) :
    (t.placed p i r).children x =
      if x = p then (t.children p).insertIdx i r else t.children x := by
  rw [placed, children_setParent, children_setChildren]
  simp only [hp, and_true]

theorem Consistent.placed (h : t.Consistent) (hp : t.Has p) (hr : Placeable t p r)
    (hi : i ≤ (t.children p).length) : (t.placed p i r).Consistent where
  mem_children q c := by
    rw [children_placed hp, parent_placed hr.has]
    by_cases hq : q = p
    · rw [if_pos hq, List.mem_insertIdx hi, h.mem_children, hq]
      by_cases hc : c = r
      · simp [hc]
      · simp [hc]
    · rw [if_neg hq, h.mem_children]
      by_cases hc : c = r
      · simp [hc, hr.orphan, Ne.symm hq]
      · simp [hc]
  nodup_children q := by
    rw [children_placed hp]
    split_ifs
    · refine (List.perm_insertIdx r _ hi).symm.nodup (List.nodup_cons.mpr ⟨?_, ?_⟩)
      · rw [h.mem_children, hr.orphan]
        simp
      · exact h.nodup_children p
    · exact h.nodup_children q
  has_root := (sameNodes_placed t p i r).has.mpr h.has_root
  root_parent := by
    rw [parent_placed hr.has, if_neg hr.ne_root.symm, h.root_parent]
  acyclic := by
    classical
    obtain ⟨rank, hrank⟩ := h.acyclic
    -- what lies below the moved node is lifted above the rank of the new parent
    refine ⟨fun y => if t.Reaches r y then rank y + (rank p + 1) else rank y, fun y q hq => ?_⟩
    rw [parent_placed hr.has] at hq
    split_ifs at hq with hy
    · obtain rfl : p = q := Option.some.inj hq
      simp only [hr.not_above, if_false, hy, Reaches.refl, if_true]
      omega
    · have hlt := hrank y q hq
      have hiff : t.Reaches r y ↔ t.Reaches r q := by
        refine ⟨fun hry => ?_, fun hrq => .child hrq hq⟩
        rcases hry.eq_or_parent with rfl | ⟨q', hq', hrq'⟩
        · exact absurd rfl hy
        · obtain rfl : q = q' := Option.some.inj (hq.symm.trans hq')
          exact hrq'
      simp only [hiff]
      split_ifs <;> omega

theorem insertIdx_length_append (pre post : List NodeRef) (r : NodeRef) :
    (pre ++ post).insertIdx pre.length r = pre ++ r :: post := by
  induction pre with
  | nil => rfl
  | cons c pre ih => rw [List.cons_append, List.length_cons, List.insertIdx_succ_cons, ih,
      List.cons_append]

theorem Consistent.insertAll (h : t.Consistent) (hp : (t.kind p).isContainer)
    (hrs : ∀ r ∈ rs, Placeable t p r) (hnodup : rs.Nodup) (hc : t.children p = pre ++ post) :
    ∃ t', t.insertAll p pre.length rs = (.ok (), t') ∧ t'.Consistent ∧
      (∀ x, t'.parent x = if x ∈ rs then some p else t.parent x) ∧
      ∀ x, t'.children x = if x = p then pre ++ rs ++ post else t.children x := by
  induction rs generalizing t pre with
  | nil =>
    refine ⟨t, rfl, h, by simp, fun x => ?_⟩
    split_ifs with hx
    · rw [hx, hc, List.append_nil]
    · rfl
  | cons r rs ih =>
    obtain ⟨hnot, hnodup⟩ := List.nodup_cons.mp hnodup
    have hr : Placeable t p r := hrs r (List.mem_cons_self ..)
    have hi : pre.length ≤ (t.children p).length := by simp [hc]
    have hhas : t.Has p := has_of_isContainer hp
    have hnodes := sameNodes_placed t p pre.length r
    have hchildren : (t.placed p pre.length r).children p = (pre ++ [r]) ++ post := by
      rw [children_placed hhas, if_pos rfl, hc, insertIdx_length_append, List.append_assoc,
        List.singleton_append]
    have hrest : ∀ s ∈ rs, Placeable (t.placed p pre.length r) p s := by
      intro s hs
      have hsr := hrs s (List.mem_cons_of_mem _ hs)
      refine ⟨hnodes.has.mpr hsr.has, hsr.ne_root, ?_, fun hsp => hsr.not_above ?_⟩
      · rw [parent_placed hr.has, if_neg, hsr.orphan]
        rintro rfl
        exact hnot hs
      · refine reaches_of_parent_eq (fun y hy => ?_) hsp
        rw [parent_placed hr.has, if_neg]
        rintro rfl
        exact hr.not_above hy
    obtain ⟨t', heq, ht', hparent, hchildren'⟩ :=
      ih (h.placed hhas hr hi) (by rwa [hnodes.kind]) hrest hnodup hchildren
    rw [List.length_append, List.length_singleton] at heq
    refine ⟨t', ?_, ht', fun x => ?_, fun x => ?_⟩
    · rw [Tree.insertAll, h.insertChild_eq hp hr hi]
      exact heq
    · rw [hparent, parent_placed hr.has]
      by_cases hx : x = r
      · simp [hx]
      · simp [hx]
    · rw [hchildren', children_placed hhas]
      split_ifs
      · simp
      · rfl

/-! ### Putting nodes in the place of another -/

/-- The nodes `rs` can take the place of `n` below `p`. -/
structure Replaceable (t : Tree) (n p : NodeRef) (rs : List NodeRef) : Prop where
  parent : t.parent n = some p
  container : (t.kind p).isContainer
  nodup : rs.Nodup
  has : ∀ r ∈ rs, t.Has r
  ne_root : ∀ r ∈ rs, r ≠ root
  ne_self : ∀ r ∈ rs, r ≠ n
  not_above : ∀ r ∈ rs, ¬ t.Reaches r p

/-- What stands in the place of a child when `rs` have taken the place of `n`. -/
def substitute (n : NodeRef) (rs : List NodeRef) (c : NodeRef) : List NodeRef :=
  if c = n then rs else if c ∈ rs then [] else [c]

theorem flatMap_substitute_of_not_mem (hn : n ∉ pre) :
    pre.flatMap (substitute n rs) = pre.filter (· ∉ rs) := by
  induction pre with
  | nil => rfl
  | cons c pre ih =>
    rw [List.mem_cons, not_or] at hn
    rw [List.flatMap_cons, ih hn.2, substitute, if_neg (Ne.symm hn.1)]
    by_cases hc : c ∈ rs
    · simp [hc]
    · simp [hc]

/-- First the replacements are taken out, and then the node whose place they take. -/
theorem Consistent.exists_cleared (h : t.Consistent) (hr : Replaceable t n p rs)
    (hsplit : t.children p = pre ++ n :: post) (hpre : n ∉ pre) :
    ∃ t', (rs.foldl (fun t r => (t.detach r).2) t).detach n =
        (some (pre.filter (· ∉ rs)).length, t') ∧ t'.Consistent ∧ SameNodes t t' ∧
      (∀ x, t'.parent x = if x = n ∨ x ∈ rs then none else t.parent x) ∧
      ∀ x, t'.children x = ((t.children x).filter (· ∉ rs)).erase n := by
  have hn : n ∉ rs := fun hn => hr.ne_self n hn rfl
  obtain ⟨h₁, hparent, hchildren⟩ := h.foldl_detach rs
  have hnodes := sameNodes_foldl_detach t rs
  generalize rs.foldl (fun t r => (t.detach r).2) t = t₁ at h₁ hnodes hparent hchildren
  have hpn : t₁.parent n = some p := by rw [hparent, if_neg hn, hr.parent]
  have hpre₁ : n ∉ pre.filter (· ∉ rs) := fun hm => hpre (List.mem_of_mem_filter hm)
  have hidx : (t₁.children p).idxOf n = (pre.filter (· ∉ rs)).length := by
    rw [hchildren, hsplit, List.filter_append, List.filter_cons_of_pos (by simpa using hn),
      List.idxOf_append_of_notMem hpre₁, List.idxOf_cons_self, Nat.add_zero]
  refine ⟨(t₁.detach n).2, ?_, h₁.detach n, hnodes.trans (sameNodes_detach t₁ n), fun x => ?_,
    fun x => ?_⟩
  · rw [h₁.detach_of_parent hpn, hidx]
  · rw [h₁.parent_detach, hparent]
    by_cases hx : x = n
    · simp [hx]
    · simp [hx]
  · rw [h₁.children_detach, hchildren]

/-- With the old node and the replacements taken out, the replacements can be placed. -/
theorem Replaceable.placeable (hr : Replaceable t n p rs) (h : t.Consistent)
    (hnodes : SameNodes t t')
    (hparent : ∀ x, t'.parent x = if x = n ∨ x ∈ rs then none else t.parent x) :
    ∀ r ∈ rs, Placeable t' p r := by
  intro r hm
  refine ⟨hnodes.has.mpr (hr.has r hm), hr.ne_root r hm, ?_, fun hrp => ?_⟩
  · rw [hparent, if_pos (.inr hm)]
  · refine hr.not_above r hm (reaches_of_parent_eq (fun y hy => ?_) hrp)
    rw [hparent, if_neg]
    rintro (rfl | hyrs)
    · exact h.not_reaches_parent hr.parent hy
    · exact hr.not_above y hyrs hy

theorem Consistent.replaceWith (h : t.Consistent) (hr : Replaceable t n p rs) :
    ∃ t', t.replaceWith n rs = (.ok (), t') ∧ t'.Consistent ∧
      (∀ x, t'.parent x =
        if x ∈ rs then some p else if x = n then none else t.parent x) ∧
      ∀ x, t'.children x = (t.children x).flatMap (substitute n rs) := by
  obtain ⟨pre, post, hsplit⟩ := List.append_of_mem ((h.mem_children p n).mpr hr.parent)
  obtain ⟨hpre, hpost⟩ : n ∉ pre ∧ n ∉ post := by
    have hnodup := h.nodup_children p
    rw [hsplit, List.nodup_middle, List.nodup_cons, List.mem_append, not_or] at hnodup
    exact hnodup.1
  obtain ⟨t₁, hdetach, h₁, hnodes, hparent₁, hchildren₁⟩ := h.exists_cleared hr hsplit hpre
  have hcleared : t₁.children p = pre.filter (· ∉ rs) ++ post.filter (· ∉ rs) := by
    have hn : n ∉ rs := fun hn => hr.ne_self n hn rfl
    rw [hchildren₁, hsplit, List.filter_append, List.filter_cons_of_pos (by simpa using hn),
      List.erase_append_right _ fun hm => hpre (List.mem_of_mem_filter hm), List.erase_cons_head]
  obtain ⟨t', heq, ht', hparent, hchildren⟩ := h₁.insertAll
    (by rw [hnodes.kind]; exact hr.container) (hr.placeable h hnodes hparent₁) hr.nodup hcleared
  refine ⟨t', ?_, ht', fun x => ?_, fun x => ?_⟩
  · have hfind : rs.find? (fun r => decide (r = n) || t.isAncestorOrSelf r p) = none := by
      refine List.find?_eq_none.mpr fun r hm => ?_
      simp [hr.ne_self r hm, h.isAncestorOrSelf_iff, hr.not_above r hm]
    rw [Tree.replaceWith, hr.parent]
    simp only [hfind, hdetach]
    exact heq
  · rw [hparent, hparent₁]
    by_cases hx : x ∈ rs
    · simp [hx]
    · simp [hx]
  · rw [hchildren]
    split_ifs with hx
    · rw [hx, hsplit, List.flatMap_append, List.flatMap_cons, flatMap_substitute_of_not_mem hpre,
        flatMap_substitute_of_not_mem hpost, substitute, if_pos rfl, List.append_assoc]
    · have hmem : n ∉ t.children x := by
        rw [h.mem_children, hr.parent]
        exact fun he => hx (Option.some.inj he).symm
      rw [flatMap_substitute_of_not_mem hmem, hchildren₁]
      exact List.erase_of_not_mem fun hm => hmem (List.mem_of_mem_filter hm)

end TemplateLang.Tree
