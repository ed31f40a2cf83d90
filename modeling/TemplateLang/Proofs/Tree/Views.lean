import TemplateLang.Proofs.Tree.Consistent

/-! Views of consistent trees. The view of a node holds the views of its children, and its
nodes are the views of everything that the node reaches. -/

namespace TemplateLang

variable {t : Tree} {n x : NodeRef} {v w : View}

namespace View

/-- What holds of a view when it holds of its children holds of every view. -/
theorem induction {P : View → Prop}
    (node : ∀ ref serial kind children, (∀ c ∈ children, P c) → P (.node ref serial kind children))
    (v : View) : P v :=
  match v with
  | .node ref serial kind children => node ref serial kind children fun c _ => induction node c

/-! ### Nodes -/

theorem listNodesWhere_eq_flatMap (enters : NodeKind → Bool) (vs : List View) :
    listNodesWhere enters vs = vs.flatMap (nodesWhere enters) := by
  induction vs with
  | nil => rfl
  | cons v vs ih => rw [listNodesWhere, ih, List.flatMap_cons]

theorem nodes_node (ref : NodeRef) (serial : ℕ) (kind : NodeKind) (children : List View) :
    (View.node ref serial kind children).nodes =
      .node ref serial kind children :: children.flatMap nodes := by
  rw [nodes, nodesWhere, listNodesWhere_eq_flatMap]
  rfl

theorem self_mem_nodes (v : View) : v ∈ v.nodes := by
  cases v
  rw [nodes_node]
  exact List.mem_cons_self ..

/-! ### Relabelled views -/

/-- A view with the kinds that `g` gives to its nodes. -/
def relabel (g : NodeRef → NodeKind) : View → View
  | .node ref serial _ children => .node ref serial (g ref) (children.map (relabel g))

@[simp] theorem ref_relabel (g : NodeRef → NodeKind) (v : View) : (v.relabel g).ref = v.ref := by
  cases v
  rw [relabel]
  rfl

theorem nodes_relabel (g : NodeRef → NodeKind) (v : View) :
    (v.relabel g).nodes = v.nodes.map (relabel g) := by
  induction v using View.induction with
  | node ref serial kind children ih =>
    rw [relabel, nodes_node, nodes_node, List.map_cons, relabel, List.flatMap_map,
      List.map_flatMap]
    exact congrArg _ (List.flatMap_congr ih)

theorem kind_of_mem_nodes_relabel {g : NodeRef → NodeKind} (h : w ∈ (v.relabel g).nodes) :
    w.kind = g w.ref := by
  rw [nodes_relabel] at h
  obtain ⟨⟨ref, serial, kind, children⟩, -, rfl⟩ := List.mem_map.mp h
  rw [relabel]
  rfl

end View

namespace Tree

@[simp] theorem ref_viewWithin (t : Tree) (k : ℕ) (n : NodeRef) : (t.viewWithin k n).ref = n := by
  cases k <;> rfl

@[simp] theorem kind_viewWithin (t : Tree) (k : ℕ) (n : NodeRef) :
    (t.viewWithin k n).kind = t.kind n := by cases k <;> rfl

@[simp] theorem serial_viewWithin (t : Tree) (k : ℕ) (n : NodeRef) :
    (t.viewWithin k n).serial = t.serial n := by cases k <;> rfl

@[simp] theorem ref_view (t : Tree) (n : NodeRef) : (t.view n).ref = n := ref_viewWithin ..

@[simp] theorem kind_view (t : Tree) (n : NodeRef) : (t.view n).kind = t.kind n :=
  kind_viewWithin ..

@[simp] theorem serial_view (t : Tree) (n : NodeRef) : (t.view n).serial = t.serial n :=
  serial_viewWithin ..

/-- The kinds in a view are those of the arena. -/
theorem kind_of_mem_nodes_view (h : w ∈ (t.view n).nodes) : w.kind = t.kind w.ref := by
  suffices ∀ k n, w ∈ (t.viewWithin k n).nodes → w.kind = t.kind w.ref from this _ n h
  intro k
  induction k with
  | zero =>
    intro n h
    rw [viewWithin, View.nodes_node] at h
    obtain rfl : w = _ := by simpa using h
    rfl
  | succ k ih =>
    intro n h
    rw [viewWithin, View.nodes_node, List.flatMap_map] at h
    rcases List.mem_cons.mp h with rfl | h
    · rfl
    · obtain ⟨c, -, hc⟩ := List.mem_flatMap.mp h
      exact ih c hc

namespace Consistent

theorem viewWithin_eq (h : t.Consistent) (rank : NodeRef → ℕ)
    (hrank : ∀ n p, t.parent n = some p → rank p < rank n)
    (hlt : ∀ n, t.Has n → rank n < t.nodes.size) {k l : ℕ} (hk : t.nodes.size ≤ rank n + k + 1)
    (hl : t.nodes.size ≤ rank n + l + 1) : t.viewWithin k n = t.viewWithin l n := by
  have hchild : ∀ {n c}, c ∈ t.children n → rank n < rank c ∧ rank c < t.nodes.size := by
    intro n c hc
    have hp := (h.mem_children n c).mp hc
    exact ⟨hrank c n hp, hlt c (has_of_parent hp)⟩
  have hleaf : ∀ {n}, t.nodes.size ≤ rank n + 1 → t.children n = [] := by
    intro n hn
    refine List.eq_nil_iff_forall_not_mem.mpr fun c hc => ?_
    have := hchild hc
    omega
  induction k generalizing n l with
  | zero =>
    rw [viewWithin]
    cases l with
    | zero => rfl
    | succ l => rw [viewWithin, hleaf (by simpa using hk), List.map_nil]
  | succ k ih =>
    rw [viewWithin]
    cases l with
    | zero => rw [viewWithin, hleaf (by simpa using hl), List.map_nil]
    | succ l =>
      rw [viewWithin]
      congr 1
      refine List.map_congr_left fun c hc => ih ?_ ?_
      · have := hchild hc
        omega
      · have := hchild hc
        omega

/-- The view of a node holds the views of its children. -/
theorem view_eq (h : t.Consistent) (n : NodeRef) :
    t.view n = .node n (t.serial n) (t.kind n) ((t.children n).map t.view) := by
  obtain ⟨rank, hrank, -, hlt⟩ := h.exists_rank_le
  have hpos : 0 < t.nodes.size := h.has_root
  obtain ⟨k, hk⟩ : ∃ k, t.nodes.size = k + 1 := ⟨t.nodes.size - 1, by omega⟩
  have hview : t.view n = t.viewWithin (k + 1) n := by rw [view, hk]
  rw [hview, viewWithin]
  congr 1
  refine List.map_congr_left fun c hc => h.viewWithin_eq rank hrank hlt ?_ ?_
  · omega
  · omega

theorem children_view (h : t.Consistent) (n : NodeRef) :
    (t.view n).children = (t.children n).map t.view := by
  rw [h.view_eq n, View.children]

/-- Views depend on what they show alone. -/
theorem view_congr {t' : Tree} (h : t.Consistent) (h' : t'.Consistent)
    (hx : ∀ y, t.Reaches x y → t'.kind y = t.kind y ∧ t'.serial y = t.serial y ∧
      t'.children y = t.children y) : t'.view x = t.view x := by
  induction x using h.children_induction with
  | step x ih =>
    obtain ⟨hkind, hserial, hchildren⟩ := hx x .refl
    rw [h.view_eq x, h'.view_eq x, hkind, hserial, hchildren]
    congr 1
    refine List.map_congr_left fun c hc => ih c hc fun y hy => hx y ?_
    exact h.reaches_iff.mpr (.inr ⟨c, hc, hy⟩)

theorem mem_nodes_view (h : t.Consistent) :
    w ∈ (t.view n).nodes ↔ ∃ x, t.Reaches n x ∧ w = t.view x := by
  induction n using h.children_induction with
  | step n ih =>
    rw [h.view_eq n, View.nodes_node, List.mem_cons, ← h.view_eq n, List.flatMap_map,
      List.mem_flatMap]
    constructor
    · rintro (rfl | ⟨c, hc, hw⟩)
      · exact ⟨n, .refl, rfl⟩
      · obtain ⟨x, hx, rfl⟩ := (ih c hc).mp hw
        exact ⟨x, h.reaches_iff.mpr (.inr ⟨c, hc, hx⟩), rfl⟩
    · rintro ⟨x, hx, rfl⟩
      rcases h.reaches_iff.mp hx with rfl | ⟨c, hc, hcx⟩
      · exact .inl rfl
      · exact .inr ⟨c, hc, (ih c hc).mpr ⟨x, hcx, rfl⟩⟩

/-- The nodes of a view besides the first lie strictly below. -/
theorem mem_tail_nodes_view (h : t.Consistent) :
    w ∈ (t.view n).nodes.tail ↔ ∃ x, t.Reaches n x ∧ x ≠ n ∧ w = t.view x := by
  rw [h.view_eq n, View.nodes_node, List.tail_cons, List.flatMap_map, List.mem_flatMap]
  constructor
  · rintro ⟨c, hc, hw⟩
    obtain ⟨x, hx, rfl⟩ := h.mem_nodes_view.mp hw
    refine ⟨x, h.reaches_iff.mpr (.inr ⟨c, hc, hx⟩), ?_, rfl⟩
    rintro rfl
    exact h.not_reaches_parent ((h.mem_children _ c).mp hc) hx
  · rintro ⟨x, hx, hne, rfl⟩
    rcases h.reaches_iff.mp hx with rfl | ⟨c, hc, hcx⟩
    · exact absurd rfl hne
    · exact ⟨c, hc, h.mem_nodes_view.mpr ⟨x, hcx, rfl⟩⟩

theorem mem_descendants (h : t.Consistent) : x ∈ t.descendants n ↔ t.Reaches n x := by
  rw [descendants, List.mem_map]
  constructor
  · rintro ⟨w, hw, rfl⟩
    obtain ⟨y, hy, rfl⟩ := h.mem_nodes_view.mp hw
    rwa [ref_view]
  · exact fun hx => ⟨t.view x, h.mem_nodes_view.mpr ⟨x, hx, rfl⟩, ref_view t x⟩

end Consistent

end Tree

end TemplateLang
