import Mathlib.Data.List.FinRange
import TemplateLang.Proofs.Result
import TemplateLang.Proofs.Tree.Operations

/-! Forests that a run of operations leads to. Every tree in them is consistent, and no serial
number is that of two nodes, in one tree or in two. One operation replaces at most one
tree, by one whose further nodes have the numbers that follow the count; so what holds of
the numbers before it holds of them afterwards. -/

namespace TemplateLang

open TemplateLang.Tree (root)

namespace Forest

variable {f f' : Forest} {t u : Tree} {operations : List Operation}

/-- The serial numbers of all nodes of all trees. -/
def serials (f : Forest) : List ℕ := f.trees.flatMap Tree.serials

structure Sound (f : Forest) : Prop where
  consistent : ∀ t ∈ f.trees, t.Consistent
  nodup : f.serials.Nodup
  lt_fresh : ∀ s ∈ f.serials, s < f.fresh

theorem sound_empty : empty.Sound :=
  ⟨by simp [empty], by simp [empty, serials], by simp [empty, serials]⟩

/-- In the second forest `t` stands for `old`, which are at most one tree of the first. -/
structure Replaces (f f' : Forest) (old : List Tree) (t : Tree) : Prop where
  trees : ∃ pre post, f.trees = pre ++ old ++ post ∧ f'.trees = pre ++ t :: post
  consistent : t.Consistent
  serials : ∃ k, t.serials = old.flatMap Tree.serials ++ List.range' f.fresh k ∧
    f'.fresh = f.fresh + k

/-- Counting on from another number changes nothing of the nodes. -/
theorem consistent_continuingAt (h : t.Consistent) (fresh : ℕ) :
    (t.continuingAt fresh).Consistent :=
  ⟨h.mem_children, h.nodup_children, h.has_root, h.root_parent, h.acyclic⟩

theorem Sound.replaces_of_step (h : f.Sound) {operation : Operation}
    (hstep : f.step operation = some f') : ∃ old t, Replaces f f' old t := by
  cases operation with
  | new =>
    obtain rfl := Option.some.inj hstep
    exact ⟨[], Tree.new f.fresh, ⟨f.trees, [], by simp, rfl⟩, (Tree.loaded_new _).consistent, 1,
      rfl, rfl⟩
  | copy i =>
    simp only [step, Option.bind_eq_bind, Option.bind_eq_some_iff] at hstep
    obtain ⟨t, -, hstep⟩ := hstep
    obtain rfl := Option.some.inj hstep
    obtain ⟨hc, hserials⟩ := (t.continuingAt f.fresh).deepCopy_serials
    exact ⟨[], _, ⟨f.trees, [], by simp, rfl⟩, hc, hserials⟩
  | change i operation =>
    simp only [step, Option.bind_eq_bind, Option.bind_eq_some_iff] at hstep
    obtain ⟨t, hi, hstep⟩ := hstep
    split_ifs at hstep with hall
    obtain rfl := Option.some.inj hstep
    obtain ⟨hlt, rfl⟩ := List.getElem?_eq_some_iff.mp hi
    obtain ⟨pre, post, htrees, hpre, hset⟩ := List.exists_of_set hlt
    have hc := consistent_continuingAt (h.consistent _ (List.getElem_mem hlt)) f.fresh
    obtain ⟨hc', k, hk, hfresh⟩ := hc.evolves_run operation (Tree.hasAll_iff.mp hall)
    refine ⟨[f.trees[i]], _, ⟨pre, post, by simpa using htrees, hset⟩, hc', k, ?_, hfresh⟩
    rw [List.flatMap_singleton]
    exact hk

theorem Sound.step (h : f.Sound) {operation : Operation} (hstep : f.step operation = some f') :
    f'.Sound := by
  obtain ⟨old, t, ⟨pre, post, htrees, htrees'⟩, hc, k, hk, hfresh⟩ := h.replaces_of_step hstep
  have hperm : f'.serials.Perm (f.serials ++ List.range' f.fresh k) := by
    rw [serials, serials, htrees, htrees']
    simp only [List.flatMap_append, List.flatMap_cons, hk, List.append_assoc]
    exact (List.perm_append_comm.append_left _).append_left _
  refine ⟨fun u hu => ?_, ?_, fun s hs => ?_⟩
  · rw [htrees'] at hu
    rcases List.mem_append.mp hu with hu | hu
    · exact h.consistent u (by simp [htrees, hu])
    · rcases List.mem_cons.mp hu with rfl | hu
      · exact hc
      · exact h.consistent u (by simp [htrees, hu])
  · rw [hperm.nodup_iff, List.nodup_append]
    refine ⟨h.nodup, List.nodup_range', ?_⟩
    rintro s hs s' hs' rfl
    have := h.lt_fresh s hs
    have := (List.mem_range'_1.mp hs').1
    omega
  · rw [hfresh]
    rcases List.mem_append.mp (hperm.mem_iff.mp hs) with hs | hs
    · have := h.lt_fresh s hs
      omega
    · exact (List.mem_range'_1.mp hs).2

theorem sound_of_foldlM (h : f.Sound) (hrun : operations.foldlM Forest.step f = some f') :
    f'.Sound := by
  induction operations generalizing f with
  | nil =>
    obtain rfl := Option.some.inj hrun
    exact h
  | cons operation operations ih =>
    rw [List.foldlM_cons] at hrun
    obtain ⟨f₁, hstep, hrun⟩ := Option.bind_eq_some_iff.mp hrun
    exact ih (h.step hstep) hrun

theorem sound_of_run (hrun : run operations = some f) : f.Sound :=
  sound_of_foldlM sound_empty hrun

/-! ### What soundness means -/

theorem nodeName_injective : Function.Injective nodeName := by
  intro a b h
  rw [nodeName, nodeName, String.append_right_inj, Nat.toString_eq_ofList_toDigits,
    Nat.toString_eq_ofList_toDigits, String.ofList_inj] at h
  rw [← Nat.ofDigitChars_ten_toDigits (n := a), h, Nat.ofDigitChars_ten_toDigits]

/-- The serial numbers of two trees are different. -/
theorem Sound.disjoint (h : f.Sound) {i j : ℕ} (hi : f.trees[i]? = some t)
    (hj : f.trees[j]? = some u) (hlt : i < j) : t.serials.Disjoint u.serials := by
  obtain ⟨hi', rfl⟩ := List.getElem?_eq_some_iff.mp hi
  obtain ⟨hj', rfl⟩ := List.getElem?_eq_some_iff.mp hj
  exact List.pairwise_iff_getElem.mp (List.nodup_flatMap.mp h.nodup).2 i j hi' hj' hlt

/-- A serial number tells the tree and the node. -/
theorem Sound.eq_of_serial_eq (h : f.Sound) {i j : ℕ} {n m : NodeRef} (hi : f.trees[i]? = some t)
    (hj : f.trees[j]? = some u) (hn : t.Has n) (hm : u.Has m) (heq : t.serial n = u.serial m) :
    i = j ∧ n = m := by
  have hget : t.serials[n.index]? = some (t.serial n) := by
    rw [Tree.getElem?_serials, if_pos hn]
  have hget' : u.serials[m.index]? = some (t.serial n) := by
    rw [Tree.getElem?_serials, if_pos hm, heq]
  rcases lt_trichotomy i j with hij | rfl | hij
  · exact absurd (List.mem_of_getElem? hget')
      (h.disjoint hi hj hij (List.mem_of_getElem? hget))
  · obtain rfl : t = u := Option.some.inj (hi.symm.trans hj)
    have hnodup := (List.nodup_flatMap.mp h.nodup).1 t (List.mem_of_getElem? hi)
    have hlt : n.index < t.serials.length := by
      rw [Tree.length_serials]
      exact hn
    have hindex := (List.getElem?_inj hlt hnodup).mp (hget.trans hget'.symm)
    exact ⟨rfl, congrArg NodeRef.mk hindex⟩
  · exact absurd (List.mem_of_getElem? hget)
      (h.disjoint hj hi hij (List.mem_of_getElem? hget'))

/-- The way up from a node ends at one without a parent. -/
theorem exists_top (h : t.Consistent) (n : NodeRef) :
    ∃ top, t.Reaches top n ∧ t.parent top = none := by
  induction n using h.parent_induction with
  | step n ih =>
    cases hp : t.parent n with
    | none => exact ⟨n, .refl, hp⟩
    | some p =>
      obtain ⟨top, htop, hnone⟩ := ih p hp
      exact ⟨top, .child htop hp, hnone⟩

/-- After every run of operations, refused ones among them, parents and children of each tree
tell the same story, no child stands twice, the root has no parent, every way up ends,
and the name of a node tells which node of which tree it is. -/
theorem run_invariant (hrun : run operations = some f) :
    (∀ t ∈ f.trees,
      (∀ p c, c ∈ t.children p ↔ t.parent c = some p) ∧ (∀ p, (t.children p).Nodup) ∧
      t.parent root = none ∧
      ∀ n, (∃ top, t.Reaches top n ∧ t.parent top = none) ∧
        ∀ p, t.parent n = some p → ¬ t.Reaches n p) ∧
    ∀ (i j : ℕ) (t u : Tree) (n m : NodeRef), f.trees[i]? = some t → f.trees[j]? = some u →
      t.Has n → u.Has m → nodeName (t.serial n) = nodeName (u.serial m) → i = j ∧ n = m := by
  have h := sound_of_run hrun
  refine ⟨fun t ht => ?_, fun i j t u n m hi hj hn hm heq => ?_⟩
  · have hc := h.consistent t ht
    exact ⟨hc.mem_children, hc.nodup_children, hc.root_parent,
      fun n => ⟨exists_top hc n, fun p hp => hc.not_reaches_parent hp⟩⟩
  · exact h.eq_of_serial_eq hi hj hn hm (nodeName_injective heq)

/-- A tree in which a replacement fails half way, and its copy. -/
def copied : List Operation :=
  [.new, .change 0 (.add root (.file "a.tmpl" "app")),
    .change 0 (.add ⟨1⟩ (.template "app.a" false true)), .change 0 (.add ⟨2⟩ (.text "A")),
    .change 0 (.create (.text "B")), .change 0 (.replace ⟨3⟩ [⟨4⟩, ⟨4⟩]), .copy 0]

def copiedForest : Forest where
  trees :=
    [⟨#[⟨0, .fileSet, none, [⟨1⟩]⟩, ⟨1, .file "a.tmpl" "app", some root, [⟨2⟩]⟩,
        ⟨2, .template "app.a" false true, some ⟨1⟩, [⟨4⟩]⟩, ⟨3, .text "A", none, []⟩,
        ⟨4, .text "B", some ⟨2⟩, []⟩], 5⟩,
      ⟨#[⟨5, .fileSet, none, [⟨1⟩]⟩, ⟨6, .file "a.tmpl" "app", some root, [⟨2⟩]⟩,
        ⟨7, .template "app.a" false true, some ⟨1⟩, [⟨3⟩]⟩, ⟨8, .text "B", some ⟨2⟩, []⟩], 9⟩]
  fresh := 9

/-- The two trees have no name of a node in common, and the node left out is at the top. -/
theorem run_invariant_copied : run copied = some copiedForest ∧
    (∀ t ∈ copiedForest.trees, ∀ n, ∃ top, t.Reaches top n ∧ t.parent top = none) ∧
    ∀ (t u : Tree) (n m : NodeRef), copiedForest.trees = [t, u] → t.Has n → u.Has m →
      nodeName (t.serial n) ≠ nodeName (u.serial m) := by
  have hrun : run copied = some copiedForest := by decide +kernel
  obtain ⟨htrees, hnames⟩ := run_invariant hrun
  refine ⟨hrun, fun t ht n => ((htrees t ht).2.2.2 n).1, fun t u n m heq hn hm hname => ?_⟩
  have hij := (hnames 0 1 t u n m (by rw [heq]; rfl) (by rw [heq]; rfl) hn hm hname).1
  exact absurd hij (by decide)

end Forest

end TemplateLang
