import Mathlib.Data.List.Find
import TemplateLang.Proofs.Tree.Forest
import TemplateLang.Proofs.Tree.Scopes
import TemplateLang.Tree.Walk

/-! Queries on trees that a run of operations leads to. In a consistent tree every walk ends: going
down, a node stands on the stack once, below everything that comes before it in the source;
going up, ranks fall. So the walk down meets the nodes from which the walk up comes by, and
each name leads to one node. -/

namespace TemplateLang.Tree

variable {t : Tree} {a b m n p : NodeRef} {f : Forest} {operations : List Forest.Operation}

/-- The handles of all nodes of the arena, of those that the root does not reach too. -/
def handles (t : Tree) : List NodeRef := (List.range t.nodes.size).map NodeRef.mk

theorem mem_handles : n ∈ t.handles ↔ t.Has n := by
  simp only [handles, List.mem_map, List.mem_range, Has]
  constructor
  · rintro ⟨i, hi, rfl⟩
    exact hi
  · exact fun hn => ⟨n.index, hn, rfl⟩

theorem nodup_handles (t : Tree) : t.handles.Nodup :=
  List.nodup_range.map fun _ _ h => congrArg NodeRef.index h

namespace Consistent

/-! ### Down -/

/-- A node comes before everything below it, and that in the order of its children. -/
theorem descendants_eq (h : t.Consistent) (n : NodeRef) :
    t.descendants n = n :: (t.children n).flatMap t.descendants := by
  rw [descendants, h.view_eq n, View.nodes_node, List.map_cons, List.flatMap_map,
    List.map_flatMap]
  rfl

theorem nodup_descendants (h : t.Consistent) (n : NodeRef) : (t.descendants n).Nodup := by
  induction n using h.children_induction with
  | step n ih =>
    rw [h.descendants_eq, List.nodup_cons, List.nodup_flatMap]
    refine ⟨fun hn => ?_, ih, ?_⟩
    · obtain ⟨c, hc, hcn⟩ := List.mem_flatMap.mp hn
      exact h.not_reaches_parent ((h.mem_children n c).mp hc) (h.mem_descendants.mp hcn)
    · refine (h.nodup_children n).imp_of_mem fun {c d} hc hd hne x hcx hdx => ?_
      exact h.siblings_disjoint hc hd hne (h.mem_descendants.mp hcx) (h.mem_descendants.mp hdx)

/-- The walk meets everything below a node, in one turn each, before it goes on with the stack. -/
theorem walkWithin_cons (h : t.Consistent) (n : NodeRef) (turns : ℕ) (met stack : List NodeRef) :
    t.walkWithin (turns + (t.descendants n).length) met (n :: stack) =
      t.walkWithin turns (met ++ t.descendants n) stack := by
  induction n using h.children_induction generalizing turns met stack with
  | step n ih =>
    have hbelow : ∀ cs : List NodeRef, (∀ c ∈ cs, c ∈ t.children n) → ∀ met,
        t.walkWithin (turns + (cs.flatMap t.descendants).length) met (cs ++ stack) =
          t.walkWithin turns (met ++ cs.flatMap t.descendants) stack := by
      intro cs hcs
      induction cs with
      | nil => simp
      | cons c cs ihcs =>
        intro met
        have hturns : turns + ((c :: cs).flatMap t.descendants).length =
            turns + (cs.flatMap t.descendants).length + (t.descendants c).length := by
          simp only [List.flatMap_cons, List.length_append]
          omega
        rw [hturns, List.cons_append, ih c (hcs c (by simp)),
          ihcs fun d hd => hcs d (by simp [hd])]
        simp
    rw [h.descendants_eq n, List.length_cons, ← Nat.add_assoc, walkWithin,
      hbelow _ fun c hc => hc]
    simp

theorem walkWithin_eq (h : t.Consistent) {turns : ℕ} (hturns : (t.descendants n).length ≤ turns) :
    t.walkWithin turns [] [n] = some (t.descendants n) := by
  obtain ⟨k, rfl⟩ := Nat.exists_eq_add_of_le' hturns
  rw [h.walkWithin_cons, List.nil_append, walkWithin]

theorem size_eq (h : t.Consistent) : t.size = t.handles.countP (t.isAncestorOrSelf root) := by
  have hperm : (t.descendants root).Perm (t.handles.filter (t.isAncestorOrSelf root)) := by
    refine (List.perm_ext_iff_of_nodup (h.nodup_descendants root)
      ((nodup_handles t).filter _)).mpr fun n => ?_
    rw [List.mem_filter, mem_handles, h.mem_descendants, h.isAncestorOrSelf_iff]
    exact ⟨fun hn => ⟨hn.has h.has_root, hn⟩, fun hn => hn.2⟩
  rw [size, hperm.length_eq, List.countP_eq_length_filter]

/-! ### Up -/

/-- The walk up takes no more turns than there are nodes on the path. -/
theorem climbWithin_eq (h : t.Consistent) (accepts : NodeRef → Bool) {turns : ℕ}
    (hturns : (t.path n).length ≤ turns) :
    t.climbWithin accepts turns (some n) = some ((t.path n).find? accepts) := by
  induction n using h.parent_induction generalizing turns with
  | step n ih =>
    cases hp : t.parent n with
    | none =>
      rw [path_of_orphan hp] at hturns ⊢
      cases turns with
      | zero => simp at hturns
      | succ turns =>
        rw [climbWithin, hp, climbWithin, List.find?_cons]
        cases accepts n <;> rfl
    | some p =>
      rw [h.path_of_parent hp] at hturns ⊢
      cases turns with
      | zero => simp at hturns
      | succ turns =>
        rw [climbWithin, hp, ih p hp (by simpa using hturns), List.find?_cons]
        cases accepts n <;> rfl

theorem climbWithin_isAncestorOrSelf (h : t.Consistent) (a : NodeRef) {turns : ℕ}
    (hturns : (t.path n).length ≤ turns) :
    (t.climbWithin (fun x => x = a) turns (some n)).map Option.isSome =
      some (t.isAncestorOrSelf a n) := by
  have hany : ((t.path n).find? fun x => x = a).isSome = t.isAncestorOrSelf a n := by
    rw [Bool.eq_iff_iff, List.find?_isSome, isAncestorOrSelf, List.contains_iff_mem]
    simp
  rw [h.climbWithin_eq _ hturns, Option.map_some, hany]

/-- What stands above the parent stands above the node, and is not the node. -/
theorem reaches_parent_iff (h : t.Consistent) (hp : t.parent n = some p) :
    t.Reaches a p ↔ t.Reaches a n ∧ a ≠ n := by
  constructor
  · intro ha
    refine ⟨.child ha hp, ?_⟩
    rintro rfl
    exact h.not_reaches_parent hp ha
  · rintro ⟨ha, hne⟩
    obtain rfl | ⟨q, hq, haq⟩ := ha.eq_or_parent
    · exact absurd rfl hne
    · obtain rfl : p = q := Option.some.inj (hp.symm.trans hq)
      exact haq

theorem reaches_orphan_iff (hp : t.parent n = none) : t.Reaches a n ↔ a = n := by
  refine ⟨fun ha => ?_, fun ha => ha ▸ .refl⟩
  obtain ha | ⟨q, hq, -⟩ := ha.eq_or_parent
  · exact ha
  · simp [hp] at hq

/-- The first node on a path is the one that all others are above. -/
theorem find?_path_eq_some (h : t.Consistent) {accepts : NodeRef → Bool} :
    (t.path n).find? accepts = some a ↔
      t.Reaches a n ∧ accepts a ∧ ∀ b, t.Reaches b n → accepts b → t.Reaches b a := by
  induction n using h.parent_induction with
  | step n ih =>
    by_cases hn : accepts n
    · have hfind : (t.path n).find? accepts = some n := by
        cases hp : t.parent n with
        | none => simp [path_of_orphan hp, hn]
        | some p => simp [h.path_of_parent hp, hn]
      rw [hfind]
      constructor
      · intro he
        obtain rfl := Option.some.inj he
        exact ⟨.refl, hn, fun b hb _ => hb⟩
      · rintro ⟨ha, -, hall⟩
        rw [h.reaches_antisymm ha (hall n .refl hn)]
    · have hne : ∀ {b}, accepts b → b ≠ n := fun hb he => hn (he ▸ hb)
      cases hp : t.parent n with
      | none =>
        simp only [path_of_orphan hp, List.find?_cons, hn, List.find?_nil, reduceCtorEq, false_iff]
        rintro ⟨ha, haccepts, -⟩
        exact hne haccepts ((reaches_orphan_iff hp).mp ha)
      | some p =>
        simp only [h.path_of_parent hp, List.find?_cons, hn, ih p hp, h.reaches_parent_iff hp]
        exact ⟨fun ⟨ha, haccepts, hall⟩ => ⟨ha.1, haccepts, fun b hb hbn =>
            hall b ⟨hb, hne hbn⟩ hbn⟩,
          fun ⟨ha, haccepts, hall⟩ => ⟨⟨ha, hne haccepts⟩, haccepts, fun b hb => hall b hb.1⟩⟩

theorem climbWithin_parent (h : t.Consistent) (accepts : NodeKind → Bool) {turns : ℕ}
    (hturns : (t.path n).length ≤ turns) :
    t.climbWithin (fun a => accepts (t.kind a)) turns (t.parent n) =
      some (t.nearestAncestor n accepts) := by
  cases hp : t.parent n with
  | none => rw [climbWithin, nearestAncestor_of_orphan hp]
  | some p =>
    rw [h.path_of_parent hp, List.length_cons] at hturns
    rw [h.climbWithin_eq _ (Nat.le_of_succ_le hturns), h.nearestAncestor_of_parent hp]

theorem nearestAncestor_eq_some_iff (h : t.Consistent) {accepts : NodeKind → Bool} :
    t.nearestAncestor n accepts = some a ↔
      (t.Reaches a n ∧ a ≠ n ∧ accepts (t.kind a)) ∧
        ∀ b, t.Reaches b n → b ≠ n → accepts (t.kind b) → t.Reaches b a := by
  cases hp : t.parent n with
  | none =>
    simp only [nearestAncestor_of_orphan hp, reduceCtorEq, false_iff]
    rintro ⟨⟨ha, hne, -⟩, -⟩
    exact hne ((reaches_orphan_iff hp).mp ha)
  | some p =>
    simp only [h.nearestAncestor_of_parent hp, h.find?_path_eq_some, h.reaches_parent_iff hp,
      and_imp, and_assoc]

theorem nearestAncestor_eq_none_iff (h : t.Consistent) {accepts : NodeKind → Bool} :
    t.nearestAncestor n accepts = none ↔
      ∀ b, t.Reaches b n → b ≠ n → accepts (t.kind b) = false := by
  cases hp : t.parent n with
  | none =>
    simp only [nearestAncestor_of_orphan hp, reaches_orphan_iff hp, true_iff]
    exact fun b hb hne => absurd hb hne
  | some p =>
    simp only [h.nearestAncestor_of_parent hp, List.find?_eq_none, h.mem_path,
      h.reaches_parent_iff hp, and_imp, Bool.not_eq_true]

end Consistent

/-! ### Names -/

/-- Looking for a name is looking for the serial number that it is made of. -/
theorem Consistent.findNamed_nodeName (h : t.Consistent) (serial : ℕ) :
    t.findNamed (nodeName serial) = t.findSerial serial := by
  rw [findNamed, descendants, List.find?_map, findSerial]
  congr 1
  refine List.find?_congr fun v hv => ?_
  obtain ⟨x, -, rfl⟩ := h.mem_nodes_view.mp hv
  simp [Forest.nodeName_injective.eq_iff]

theorem nodeName_inj_of_sound (h : f.Sound) (ht : t ∈ f.trees) (hn : t.Has n) (hm : t.Has m) :
    nodeName (t.serial n) = nodeName (t.serial m) ↔ n = m := by
  obtain ⟨i, hi⟩ := List.mem_iff_getElem?.mp ht
  refine ⟨fun he => ?_, fun he => by rw [he]⟩
  exact (h.eq_of_serial_eq hi hi hn hm (Forest.nodeName_injective he)).2

/-- A name leads to its node if the root reaches it, and else nowhere. -/
theorem findNamed_of_sound (h : f.Sound) (ht : t ∈ f.trees) (hm : t.Has m) :
    t.findNamed (nodeName (t.serial m)) =
      if t.isAncestorOrSelf root m then some m else none := by
  have hc := h.consistent t ht
  have hname : ∀ n ∈ t.descendants root,
      decide (nodeName (t.serial n) = nodeName (t.serial m)) = decide (n = m) := by
    intro n hn
    have hhas := (hc.mem_descendants.mp hn).has hc.has_root
    rw [decide_eq_decide, nodeName_inj_of_sound h ht hhas hm]
  rw [findNamed, List.find?_congr hname]
  split_ifs with hroot
  · have hmem := hc.mem_descendants.mpr (hc.isAncestorOrSelf_iff.mp hroot)
    have hsome : ((t.descendants root).find? fun n => n = m).isSome :=
      List.find?_isSome.mpr ⟨m, hmem, by simp⟩
    obtain ⟨n, hn⟩ := Option.isSome_iff_exists.mp hsome
    obtain rfl : n = m := by simpa using List.find?_some hn
    exact hn
  · rw [List.find?_eq_none]
    intro n hn he
    obtain rfl := of_decide_eq_true he
    exact hroot (hc.isAncestorOrSelf_iff.mpr (hc.mem_descendants.mp hn))

/-! ### All queries -/

/-- On every tree that a run of operations leads to, the walk down from a node ends, and what it
has met are the nodes that the walk up leads from to that node, each once and in order of the
source; the size counts those that the root is above, a name leads to one of them or nowhere,
and the nearest ancestor is the first on the way up. -/
theorem queries_agree (hrun : Forest.run operations = some f) (ht : t ∈ f.trees) :
    (∀ n, (∀ turns, (t.descendants n).length ≤ turns →
        t.walkWithin turns [] [n] = some (t.descendants n)) ∧
      (∀ m, m ∈ t.descendants n ↔ t.isAncestorOrSelf n m) ∧ (t.descendants n).Nodup ∧
      t.descendants n = n :: (t.children n).flatMap t.descendants) ∧
    (∀ a n turns, (t.path n).length ≤ turns →
      (t.climbWithin (fun x => x = a) turns (some n)).map Option.isSome =
        some (t.isAncestorOrSelf a n)) ∧
    t.size = t.handles.countP (t.isAncestorOrSelf root) ∧
    (∀ m, t.Has m → t.findNamed (nodeName (t.serial m)) =
        (if t.isAncestorOrSelf root m then some m else none) ∧
      t.findSerial (t.serial m) = t.findNamed (nodeName (t.serial m))) ∧
    ∀ m accepts, (∀ turns, (t.path m).length ≤ turns →
        t.climbWithin (fun a => accepts (t.kind a)) turns (t.parent m) =
          some (t.nearestAncestor m accepts)) ∧
      (∀ a, t.nearestAncestor m accepts = some a ↔
        (t.isAncestorOrSelf a m ∧ a ≠ m ∧ accepts (t.kind a)) ∧
          ∀ b, t.isAncestorOrSelf b m → b ≠ m → accepts (t.kind b) → t.isAncestorOrSelf b a) ∧
      (t.nearestAncestor m accepts = none ↔
        ∀ b, t.isAncestorOrSelf b m → b ≠ m → accepts (t.kind b) = false) := by
  have hsound := Forest.sound_of_run hrun
  have h := hsound.consistent t ht
  refine ⟨fun n => ⟨fun turns => h.walkWithin_eq, fun m => ?_, h.nodup_descendants n,
    h.descendants_eq n⟩, fun a n turns => h.climbWithin_isAncestorOrSelf a, h.size_eq,
    fun m hm => ?_, fun m accepts => ?_⟩
  · rw [h.mem_descendants, h.isAncestorOrSelf_iff]
  · exact ⟨findNamed_of_sound hsound ht hm, (h.findNamed_nodeName _).symm⟩
  · simp only [h.isAncestorOrSelf_iff]
    exact ⟨fun turns => h.climbWithin_parent accepts, fun a => h.nearestAncestor_eq_some_iff,
      h.nearestAncestor_eq_none_iff⟩

/-- A template whose last text was moved to the front, and one of whose texts was taken out. -/
def rearranged : List Forest.Operation :=
  [.new, .change 0 (.add root (.file "a.tmpl" "app")),
    .change 0 (.add ⟨1⟩ (.template "app.a" false true)), .change 0 (.add ⟨2⟩ (.text "A")),
    .change 0 (.add ⟨2⟩ (.text "B")), .change 0 (.add ⟨2⟩ (.text "C")),
    .change 0 (.insert ⟨2⟩ 0 ⟨5⟩), .change 0 (.detach ⟨4⟩)]

def rearrangedTree : Tree :=
  ⟨#[⟨0, .fileSet, none, [⟨1⟩]⟩, ⟨1, .file "a.tmpl" "app", some root, [⟨2⟩]⟩,
    ⟨2, .template "app.a" false true, some ⟨1⟩, [⟨5⟩, ⟨3⟩]⟩, ⟨3, .text "A", some ⟨2⟩, []⟩,
    ⟨4, .text "B", none, []⟩, ⟨5, .text "C", some ⟨2⟩, []⟩], 6⟩

theorem run_rearranged : Forest.run rearranged = some ⟨[rearrangedTree], 6⟩ := by decide +kernel

/-- The walk down meets the moved text before the one that is older, and not the one taken out,
whose name leads nowhere. -/
theorem queries_agree_rearranged : Forest.run rearranged = some ⟨[rearrangedTree], 6⟩ ∧
    rearrangedTree.walkWithin 5 [] [root] = some [root, ⟨1⟩, ⟨2⟩, ⟨5⟩, ⟨3⟩] ∧
    rearrangedTree.findNamed (nodeName 5) = some ⟨5⟩ ∧
    rearrangedTree.findNamed (nodeName 4) = none ∧
    rearrangedTree.climbWithin (fun a => rearrangedTree.kind a = .fileSet) 4
      (rearrangedTree.parent ⟨5⟩) = some (some root) := by
  obtain ⟨hdown, -, -, hnames, hup⟩ :=
    queries_agree run_rearranged (List.mem_singleton_self rearrangedTree)
  have hdescendants : rearrangedTree.descendants root = [root, ⟨1⟩, ⟨2⟩, ⟨5⟩, ⟨3⟩] := by decide
  refine ⟨run_rearranged, ?_, ?_, ?_, ?_⟩
  · rw [(hdown root).1 5 (by decide), hdescendants]
  · exact (hnames ⟨5⟩ (by decide)).1
  · exact (hnames ⟨4⟩ (by decide)).1
  · rw [(hup ⟨5⟩ fun k => k = .fileSet).1 4 (by decide)]
    decide

end TemplateLang.Tree
