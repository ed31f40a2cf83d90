import TemplateLang.Proofs.Tree.Levels

/-! The shape of views. In a view of a formed tree everything stands where it may, and what comes
first in a conditional block is a condition; so a walk over a view meets no node that it
cannot handle. -/

namespace TemplateLang

variable {t : Tree} {n : NodeRef} {v w c : View} {ref : NodeRef} {serial : ℕ} {kind : NodeKind}
  {children : List View}

namespace View

/-- What holds of all nodes of a view holds of its first node and of all nodes of its children. -/
theorem forall_nodes_node {P : View → Prop} :
    (∀ w ∈ (View.node ref serial kind children).nodes, P w) ↔
      P (.node ref serial kind children) ∧ ∀ c ∈ children, ∀ w ∈ c.nodes, P w := by
  rw [nodes_node, List.forall_mem_cons]
  simp only [List.mem_flatMap, forall_exists_index, and_imp]
  exact and_congr_right fun _ => ⟨fun h c hc w hw => h w c hc hw, fun h w c hc hw => h c hc w hw⟩

/-- The children of a node stand where they may, and a block opens with a condition. -/
structure Fits (v : View) : Prop where
  holds : ∀ c ∈ v.children, v.kind.level.holds c.kind.level
  opens : v.kind.level = .cond → ∀ c, v.children.head? = some c → c.kind.opensBlock

/-- Every node of the view fits. -/
def Shaped (v : View) : Prop := ∀ w ∈ v.nodes, w.Fits

theorem Shaped.fits (h : v.Shaped) : v.Fits := h v v.self_mem_nodes

theorem Shaped.child (h : v.Shaped) (hc : c ∈ v.children) : c.Shaped := by
  obtain ⟨ref, serial, kind, children⟩ := v
  exact (forall_nodes_node.mp h).2 c hc

/-- Below a node that owns a body stand items. -/
theorem Shaped.isItem (h : v.Shaped) (hv : v.kind.level.ownsBody) (hc : c ∈ v.children) :
    c.kind.level.isItem := by
  rw [Level.isItem_of_holds (h.fits.holds c hc), hv]

/-- Below a conditional block stand branches. -/
theorem Shaped.branch (h : v.Shaped) (hv : v.kind.level = .cond) (hc : c ∈ v.children) :
    c.kind.level = .branch := by
  have hholds := h.fits.holds c hc
  rw [hv] at hholds
  simpa [Level.holds] using hholds

end View

namespace Tree

theorem Formed.shaped_view (h : t.Formed) (ho : t.Opened) (n : NodeRef) : (t.view n).Shaped := by
  intro w hw
  have hc := h.consistent
  obtain ⟨x, -, rfl⟩ := hc.mem_nodes_view.mp hw
  rw [hc.view_eq x]
  refine ⟨fun c hm => ?_, fun hcond c hm => ?_⟩
  · obtain ⟨y, hy, rfl⟩ := List.mem_map.mp hm
    rw [kind_view]
    exact h.leveled.holds y x ((hc.mem_children x y).mp hy)
  · rw [View.children, List.head?_map, Option.map_eq_some_iff] at hm
    obtain ⟨y, hy, rfl⟩ := hm
    rw [kind_view]
    exact ho x y hcond hy

end Tree

end TemplateLang
