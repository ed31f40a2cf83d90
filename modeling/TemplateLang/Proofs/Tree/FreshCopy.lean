import Mathlib.Data.List.Nodup
import Mathlib.Data.Set.Function
import TemplateLang.Proofs.Tree.Copies
import TemplateLang.Proofs.Tree.Queries
import TemplateLang.Proofs.Tree.Renamed

/-! Copies of what a root reaches. The nodes of a copy are numbered in order of the source, so that
a node goes to its place in that order, and what shows the nodes of the original with other
handles shows a tree of the same form. -/

namespace TemplateLang

namespace Tree

variable {t t' : Tree} {m n : NodeRef} {r : NodeRef → NodeRef} {s : NodeRef → ℕ} {fresh : ℕ}

/-! ### Trees of the same form -/

/-- `r` takes what one root reaches to what the other reaches, one to one, and keeps kinds, parents
and the order of children. -/
structure Corresponds (t t' : Tree) (r : NodeRef → NodeRef) : Prop where
  bijOn : Set.BijOn r {n | t.Reaches root n} {n | t'.Reaches root n}
  top : r root = root
  kind : ∀ n, t.Reaches root n → t'.kind (r n) = t.kind n
  parent : ∀ n, t.Reaches root n → t'.parent (r n) = (t.parent n).map r
  children : ∀ n, t.Reaches root n → t'.children (r n) = (t.children n).map r

theorem descendants_of_rename (hview : t'.view root = (t.view root).rename r s) :
    t'.descendants root = (t.descendants root).map r := by
  rw [descendants, descendants, hview, View.nodes_rename, List.map_map, List.map_map]
  exact List.map_congr_left fun v _ => View.ref_rename v

section

variable (h : t.Consistent) (h' : t'.Consistent)
  (hview : t'.view root = (t.view root).rename r s)

include h h' hview

/-- What the root reaches is shown under its new handle. -/
theorem view_of_rename (hn : t.Reaches root n) :
    t'.Reaches root (r n) ∧ t'.view (r n) = (t.view n).rename r s := by
  have hmem : (t.view n).rename r s ∈ (t'.view root).nodes := by
    rw [hview, View.nodes_rename]
    exact List.mem_map_of_mem (h.mem_nodes_view.mpr ⟨n, hn, rfl⟩)
  obtain ⟨x, hx, he⟩ := h'.mem_nodes_view.mp hmem
  obtain rfl : r n = x := by simpa using congrArg View.ref he
  exact ⟨hx, he.symm⟩

theorem children_of_rename (hn : t.Reaches root n) : t'.children (r n) = (t.children n).map r := by
  have he := congrArg (fun v => v.children.map View.ref) (view_of_rename h h' hview hn).2
  simpa [h.children_view, h'.children_view, Function.comp_def] using he

theorem corresponds_of_rename (hinj : Set.InjOn r {n | t.Reaches root n}) :
    t.Corresponds t' r := by
  have hroot : r root = root := by simpa using (congrArg View.ref hview).symm
  refine ⟨⟨fun n hn => (view_of_rename h h' hview hn).1, hinj, fun m hm => ?_⟩, hroot,
    fun n hn => ?_, fun n hn => ?_, fun n => children_of_rename h h' hview⟩
  · have hmem := h'.mem_descendants.mpr hm
    rw [descendants_of_rename hview] at hmem
    obtain ⟨n, hn, rfl⟩ := List.mem_map.mp hmem
    exact Set.mem_image_of_mem r (h.mem_descendants.mp hn)
  · simpa using congrArg View.kind (view_of_rename h h' hview hn).2
  · obtain rfl | ⟨p, hp, hroot⟩ := hn.eq_or_parent
    · rw [hroot, h.root_parent, h'.root_parent, Option.map_none]
    · rw [hp, Option.map_some, ← h'.mem_children, children_of_rename h h' hview hroot]
      exact List.mem_map_of_mem ((h.mem_children p n).mpr hp)

end

/-- A dump is its lines, each with the name of a node at the end. -/
theorem Consistent.dump_eq (h : t.Consistent) (n : NodeRef) : t.dump n =
    String.join (List.zipWith View.dumpLine ((t.view n).dumpTexts 0)
      ((t.descendants n).map t.serial)) := by
  have hserials : (t.descendants n).map t.serial = (t.view n).nodes.map View.serial := by
    rw [descendants, List.map_map]
    refine List.map_congr_left fun v hv => ?_
    obtain ⟨x, -, rfl⟩ := h.mem_nodes_view.mp hv
    simp
  rw [dump, View.dump, View.dumpLines_eq, hserials, List.zipWith_map_right]

/-! ### Copies -/

/-- The handle that a node gets in a copy: its place in order of the source. -/
def place (t : Tree) (n : NodeRef) : NodeRef := ⟨(t.descendants root).idxOf n⟩

theorem Consistent.map_place (h : t.Consistent) :
    (t.descendants root).map t.place = (List.range t.size).map NodeRef.mk := by
  refine List.ext_getElem (by simp [size]) fun i hi _ => ?_
  rw [List.length_map] at hi
  simp [place, (h.nodup_descendants root).idxOf_getElem i hi]

theorem Consistent.injOn_place (h : t.Consistent) : Set.InjOn t.place {n | t.Reaches root n} := by
  intro m hm n _ he
  exact (List.idxOf_inj (h.mem_descendants.mpr hm)).mp (congrArg NodeRef.index he)

/-- Children are copied one after the other. -/
theorem Consistent.foldlM_copyWithin (h : t.Consistent) {depth : ℕ} {cs : List NodeRef}
    (hcs : ∀ c ∈ cs, ∀ into m, t.copyWithin depth c into m =
      some (into.addCopies m ((t.children c).map t.view))) (into : Tree) (m : NodeRef) :
    cs.foldlM (fun into c => t.copyWithin depth c (into.addUnchecked m (t.kind c)).2
      (into.addUnchecked m (t.kind c)).1) into = some (into.addCopies m (cs.map t.view)) := by
  induction cs generalizing into with
  | nil => simp [addCopies]
  | cons c cs ih =>
    have hcopy : t.copyWithin depth c (into.addUnchecked m (t.kind c)).2
        (into.addUnchecked m (t.kind c)).1 = some (into.addCopy m (t.view c)) := by
      rw [hcs c (by simp), h.view_eq c, addCopy]
    rw [List.foldlM_cons, hcopy, Option.bind_eq_bind, Option.bind_some,
      ih fun d hd => hcs d (by simp [hd]), List.map_cons, addCopies]

/-- Copying goes no deeper than chains of descendants are long, as ranks rise on the way. -/
theorem Consistent.copyWithin_eq (h : t.Consistent) {depth : ℕ} (hdepth : t.nodes.size < depth)
    (n : NodeRef) (into : Tree) (m : NodeRef) :
    t.copyWithin depth n into m = some (into.addCopies m ((t.children n).map t.view)) := by
  obtain ⟨rank, hrank, hle, -⟩ := h.exists_rank_le
  have hcopy : ∀ depth n into m, t.nodes.size < rank n + depth →
      t.copyWithin depth n into m = some (into.addCopies m ((t.children n).map t.view)) := by
    intro depth
    induction depth with
    | zero =>
      intro n _ _ hn
      have := hle n
      omega
    | succ depth ih =>
      intro n into m hn
      refine h.foldlM_copyWithin (fun c hc into m => ih c into m ?_) into m
      have := hrank c n ((h.mem_children n c).mp hc)
      omega
  exact hcopy depth n into m (by omega)

theorem view_continuingAt (h : t.Consistent) (fresh : ℕ) (n : NodeRef) :
    (t.continuingAt fresh).view n = t.view n :=
  h.view_congr (Forest.consistent_continuingAt h fresh) fun _ _ => ⟨rfl, rfl, rfl⟩

/-- The copy of a tree, whose nodes are numbered from `fresh` on. -/
def copyAt (t : Tree) (fresh : ℕ) : Tree := (t.continuingAt fresh).deepCopy

namespace Consistent

theorem copyAt_eq (h : t.Consistent) (fresh : ℕ) :
    t.copyAt fresh = (new fresh).addCopies root ((t.children root).map t.view) := by
  rw [copyAt, deepCopy, view_continuingAt h, h.children_view]
  rfl

theorem copied_copyAt (h : t.Consistent) (fresh : ℕ) :
    Copied fresh root ((t.children root).map t.view) (new fresh) (t.copyAt fresh) := by
  rw [h.copyAt_eq]
  exact (unbroken_new fresh).copied_addCopies _ (unbroken_new fresh).consistent.has_root

theorem view_copyAt (h : t.Consistent) (hroot : t.kind root = .fileSet) (fresh : ℕ) :
    (t.copyAt fresh).view root =
      (t.view root).rename t.place fun n => fresh + (t.place n).index := by
  have hindex : ((t.view root).nodes.map fun w => (t.place w.ref).index) =
      List.range' 0 (t.view root).nodes.length := by
    have hplace := congrArg (List.map NodeRef.index) h.map_place
    simpa [descendants, size, Function.comp_def, List.range_eq_range'] using hplace
  rw [h.copyAt_eq, view_addCopies_new, ← View.numbered_eq_rename fresh _ 0 hindex, h.view_eq root,
    hroot, View.numbered_node, View.numbered_node]

theorem consistent_copyAt (h : t.Consistent) (fresh : ℕ) : (t.copyAt fresh).Consistent :=
  (h.copied_copyAt fresh).unbroken.consistent

theorem size_nodes_copyAt (h : t.Consistent) (fresh : ℕ) :
    (t.copyAt fresh).nodes.size = t.size := by
  have hsize : (new fresh).nodes.size = 1 := rfl
  rw [(h.copied_copyAt fresh).size, hsize, size, descendants, h.view_eq root, View.nodes_node,
    List.length_map, List.length_cons, Nat.add_comm]

variable (h : t.Consistent) (hroot : t.kind root = .fileSet) (fresh : ℕ)

include h hroot

theorem corresponds_copyAt : t.Corresponds (t.copyAt fresh) t.place :=
  corresponds_of_rename h (h.consistent_copyAt fresh) (h.view_copyAt hroot fresh) h.injOn_place

theorem descendants_copyAt :
    (t.copyAt fresh).descendants root = (List.range t.size).map NodeRef.mk := by
  rw [descendants_of_rename (h.view_copyAt hroot fresh), h.map_place]

theorem size_copyAt : (t.copyAt fresh).size = t.size := by
  rw [size, h.descendants_copyAt hroot, List.length_map, List.length_range]

/-- No node of a copy is out of reach. -/
theorem reaches_copyAt (hm : (t.copyAt fresh).Has m) : (t.copyAt fresh).Reaches root m := by
  rw [Has, h.size_nodes_copyAt] at hm
  rw [← (h.consistent_copyAt fresh).mem_descendants, h.descendants_copyAt hroot]
  exact List.mem_map.mpr ⟨m.index, List.mem_range.mpr hm, rfl⟩

theorem source_copyAt : (t.copyAt fresh).source root = t.source root := by
  have hfirst : ∀ {t : Tree}, t.Consistent → t.isFirstSibling root := by
    intro t h
    rw [isFirstSibling, h.root_parent]
  rw [source, source, hfirst h, hfirst (h.consistent_copyAt fresh), h.view_copyAt hroot,
    View.sourceAt_rename]

theorem map_serial_copyAt :
    ((t.copyAt fresh).descendants root).map (t.copyAt fresh).serial =
      List.range' fresh t.size := by
  have hview := h.view_copyAt hroot fresh
  have hserial : ∀ n ∈ t.descendants root,
      (t.copyAt fresh).serial (t.place n) = fresh + (t.place n).index := by
    intro n hn
    have hn := view_of_rename h (h.consistent_copyAt fresh) hview (h.mem_descendants.mp hn)
    simpa using congrArg View.serial hn.2
  have hplace := congrArg (List.map fun n => fresh + n.index) h.map_place
  calc
    _ = (t.descendants root).map fun n => fresh + (t.place n).index := by
      rw [descendants_of_rename hview, List.map_map]
      exact List.map_congr_left hserial
    _ = List.range' fresh t.size := by
      rw [List.range'_eq_map_range]
      simpa [Function.comp_def] using hplace

/-- The dumps have the same lines but for the names of the nodes. -/
theorem dumps_copyAt : ∃ texts : List String, texts.length = t.size ∧
    t.dump root =
      String.join (List.zipWith View.dumpLine texts ((t.descendants root).map t.serial)) ∧
    (t.copyAt fresh).dump root = String.join (List.zipWith View.dumpLine texts
      (((t.copyAt fresh).descendants root).map (t.copyAt fresh).serial)) := by
  refine ⟨(t.view root).dumpTexts 0, ?_, h.dump_eq root, ?_⟩
  · rw [View.length_dumpTexts, size, descendants, List.length_map]
  · rw [(h.consistent_copyAt fresh).dump_eq, h.view_copyAt hroot, View.dumpTexts_rename]

end Consistent

end Tree

/-! ### Copies among other trees -/

namespace Forest

open TemplateLang.Tree

variable {f : Forest} {t u copy : Tree} {m n : NodeRef} {i : ℕ} {operations : List Operation}

theorem Sound.step_copy (h : f.Sound) (hi : f.trees[i]? = some t) :
    f.step (.copy i) = some ⟨f.trees ++ [t.copyAt f.fresh], f.fresh + t.size⟩ := by
  have hc := h.consistent t (List.mem_of_getElem? hi)
  have hfresh := (hc.copied_copyAt f.fresh).unbroken.next
  rw [hc.size_nodes_copyAt] at hfresh
  rw [← hfresh]
  simp only [Forest.step, hi]
  rfl

/-- No node of a copy has the name of a node that is there already, within reach or out of it. -/
theorem name_copyAt_ne (h : f.Sound) (hi : f.trees[i]? = some t)
    (hm : (t.copyAt f.fresh).Has m) (hu : u ∈ f.trees) (hn : u.Has n) :
    nodeName ((t.copyAt f.fresh).serial m) ≠ nodeName (u.serial n) := by
  obtain ⟨j, hj⟩ := List.mem_iff_getElem?.mp hu
  have hlt : j < f.trees.length := (List.getElem?_eq_some_iff.mp hj).1
  intro he
  have heq := (h.step (h.step_copy hi)).eq_of_serial_eq (i := f.trees.length) (j := j)
    (by simp) (by simpa [List.getElem?_append_left hlt] using hj) hm hn (nodeName_injective he)
  omega

theorem name_copyAt_inj (h : f.Sound) (hi : f.trees[i]? = some t)
    (hm : (t.copyAt f.fresh).Has m) (hn : (t.copyAt f.fresh).Has n)
    (he : nodeName ((t.copyAt f.fresh).serial m) = nodeName ((t.copyAt f.fresh).serial n)) :
    m = n := by
  have h' := h.step (h.step_copy hi)
  exact (nodeName_inj_of_sound h' (by simp) hm hn).mp he

/-- After every run of operations, the copy of a tree whose root is still a file set is made on a
walk down that ends, and leaves all trees as they are. It is a consistent tree whose root reaches
all its nodes, it corresponds to what the root of the original reaches, its nodes are named anew
in order of the source, and it has the same source, the same size and the same dump but for the
names. -/
theorem copy_corresponds (hrun : run operations = some f) (hi : f.trees[i]? = some t)
    (hroot : t.kind root = .fileSet) :
    ∃ copy, (∀ depth, t.nodes.size < depth →
        t.copyWithin depth root (Tree.new f.fresh) root = some copy) ∧
      f.step (.copy i) = some ⟨f.trees ++ [copy], f.fresh + copy.size⟩ ∧
      copy.Consistent ∧ (∀ m, copy.Has m → copy.Reaches root m) ∧
      (∃ r, t.Corresponds copy r ∧ copy.descendants root = (t.descendants root).map r) ∧
      (copy.descendants root).map copy.serial = List.range' f.fresh copy.size ∧
      (∀ m n, copy.Has m → copy.Has n →
        nodeName (copy.serial m) = nodeName (copy.serial n) → m = n) ∧
      (∀ m, copy.Has m → ∀ u ∈ f.trees, ∀ n, u.Has n →
        nodeName (copy.serial m) ≠ nodeName (u.serial n)) ∧
      copy.source root = t.source root ∧ copy.size = t.size ∧
      ∃ texts : List String, texts.length = t.size ∧
        t.dump root =
          String.join (List.zipWith View.dumpLine texts ((t.descendants root).map t.serial)) ∧
        copy.dump root = String.join
          (List.zipWith View.dumpLine texts ((copy.descendants root).map copy.serial)) := by
  have hsound := sound_of_run hrun
  have h := hsound.consistent t (List.mem_of_getElem? hi)
  have hsize := h.size_copyAt hroot f.fresh
  refine ⟨t.copyAt f.fresh, ?_, ?_, h.consistent_copyAt f.fresh,
    fun m hm => h.reaches_copyAt hroot f.fresh hm,
    ⟨t.place, h.corresponds_copyAt hroot f.fresh,
      descendants_of_rename (h.view_copyAt hroot f.fresh)⟩, ?_,
    fun m n => name_copyAt_inj hsound hi,
    fun m hm u hu n => name_copyAt_ne hsound hi hm hu,
    h.source_copyAt hroot f.fresh, hsize, h.dumps_copyAt hroot f.fresh⟩
  · intro depth hdepth
    rw [h.copyWithin_eq hdepth, h.copyAt_eq]
  · rw [hsize, hsound.step_copy hi]
  · rw [hsize, h.map_serial_copyAt hroot]

/-- The copy has no node for the text taken out, and numbers the moved text before the older. -/
theorem copy_corresponds_rearranged :
    run rearranged = some ⟨[rearrangedTree], 6⟩ ∧ rearrangedTree.kind root = .fileSet ∧
    ∃ copy, step ⟨[rearrangedTree], 6⟩ (.copy 0) = some ⟨[rearrangedTree, copy], 11⟩ ∧
      copy.size = 5 ∧ (copy.descendants root).map copy.serial = [6, 7, 8, 9, 10] ∧
      copy.source root =
        "\x7bnamespace app\x7d\n\n\x7btemplate app.a\x7dCA\x7b/template\x7d\n" := by
  have hroot : rearrangedTree.kind root = .fileSet := by decide
  obtain ⟨copy, -, hstep, -, -, -, hserials, -, -, hsource, hsize, -⟩ :=
    copy_corresponds (i := 0) run_rearranged rfl hroot
  have hfive : rearrangedTree.size = 5 := by decide
  rw [hfive] at hsize
  rw [hsize] at hstep hserials
  refine ⟨run_rearranged, hroot, copy, hstep, hsize, hserials, ?_⟩
  rw [hsource]
  decide +kernel

end Forest

end TemplateLang
