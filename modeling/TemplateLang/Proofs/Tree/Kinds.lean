import TemplateLang.Proofs.Tree.Views

/-! Passes that change kinds in order of the source. No pass moves a node. What a pass does to
a node depends on the state in which it meets the node; when the states that are possible
inside a node follow from the nodes above it, the new kinds are a function of the node. -/

namespace TemplateLang

variable {t t' : Tree} {n x p : NodeRef} {σ : Type} {enters : NodeKind → Bool}
  {step : σ → NodeKind → σ × NodeKind} {g : NodeRef → NodeKind}

namespace View

@[simp] theorem mapKindsList_nil (s : σ) : mapKindsList enters step s [] = (s, []) := rfl

@[simp] theorem mapKindsList_cons (s : σ) (v : View) (vs : List View) :
    mapKindsList enters step s (v :: vs) =
      ((mapKindsList enters step (v.mapKinds enters step s).1 vs).1,
        (v.mapKinds enters step s).2 ::
          (mapKindsList enters step (v.mapKinds enters step s).1 vs).2) := rfl

theorem mapKinds_node (s : σ) (ref : NodeRef) (serial : ℕ) (kind : NodeKind)
    (children : List View) :
    (View.node ref serial kind children).mapKinds enters step s =
      if enters kind then
        ((mapKindsList enters step (step s kind).1 children).1,
          .node ref serial (step s kind).2 (mapKindsList enters step (step s kind).1 children).2)
      else ((step s kind).1, .node ref serial (step s kind).2 children) := by
  rw [mapKinds]

theorem exists_of_mem_mapKindsList {w : View} (s : σ) (vs : List View)
    (h : w ∈ (mapKindsList enters step s vs).2) :
    ∃ v ∈ vs, ∃ s, w = (v.mapKinds enters step s).2 := by
  induction vs generalizing s with
  | nil => simp at h
  | cons v vs ih =>
    rcases List.mem_cons.mp h with rfl | h
    · exact ⟨v, List.mem_cons_self .., s, rfl⟩
    · obtain ⟨u, hu, hs⟩ := ih _ h
      exact ⟨u, List.mem_cons_of_mem _ hu, hs⟩

/-- Each node of a changed view has the kind of an old node or that which the pass gives it. -/
theorem exists_of_mem_nodes_mapKinds {v w : View} {s : σ}
    (h : w ∈ (v.mapKinds enters step s).2.nodes) :
    ∃ u ∈ v.nodes, w.ref = u.ref ∧ (w.kind = u.kind ∨ ∃ s, w.kind = (step s u.kind).2) := by
  induction v using View.induction generalizing s with
  | node ref serial kind children ih =>
    have hself := self_mem_nodes (.node ref serial kind children)
    have hbelow : ∀ u ∈ children.flatMap nodes, u ∈ (View.node ref serial kind children).nodes := by
      intro u hu
      rw [nodes_node]
      exact List.mem_cons_of_mem _ hu
    rw [mapKinds_node] at h
    split_ifs at h
    · rw [nodes_node] at h
      rcases List.mem_cons.mp h with rfl | h
      · exact ⟨_, hself, rfl, .inr ⟨s, rfl⟩⟩
      · obtain ⟨c', hc', hw⟩ := List.mem_flatMap.mp h
        obtain ⟨c, hc, s', rfl⟩ := exists_of_mem_mapKindsList _ _ hc'
        obtain ⟨u, hu, hwu⟩ := ih c hc hw
        exact ⟨u, hbelow u (List.mem_flatMap.mpr ⟨c, hc, hu⟩), hwu⟩
    · rw [nodes_node] at h
      rcases List.mem_cons.mp h with rfl | h
      · exact ⟨_, hself, rfl, .inr ⟨s, rfl⟩⟩
      · exact ⟨w, hbelow w h, rfl, .inl rfl⟩

end View

namespace Tree

/-! ### Nothing moves -/

/-- Two trees that may differ in kinds only. -/
structure SameShape (t t' : Tree) : Prop where
  parent : ∀ x, t'.parent x = t.parent x
  children : ∀ x, t'.children x = t.children x
  serial : ∀ x, t'.serial x = t.serial x
  size : t'.nodes.size = t.nodes.size

theorem SameShape.refl (t : Tree) : SameShape t t := ⟨fun _ => rfl, fun _ => rfl, fun _ => rfl, rfl⟩

theorem SameShape.symm (h : SameShape t t') : SameShape t' t where
  parent x := (h.parent x).symm
  children x := (h.children x).symm
  serial x := (h.serial x).symm
  size := h.size.symm

theorem SameShape.trans {t'' : Tree} (h : SameShape t t') (h' : SameShape t' t'') :
    SameShape t t'' where
  parent x := (h'.parent x).trans (h.parent x)
  children x := (h'.children x).trans (h.children x)
  serial x := (h'.serial x).trans (h.serial x)
  size := h'.size.trans h.size

theorem SameShape.files_eq (h : SameShape t t') :
    t'.files.flatMap t'.children = t.files.flatMap t.children := by
  rw [files, files, h.children]
  exact List.flatMap_congr fun f _ => h.children f

theorem SameShape.has (h : SameShape t t') : t'.Has n ↔ t.Has n := by
  rw [Has, Has, h.size]

theorem SameShape.consistent (h : SameShape t t') (ht : t.Consistent) : t'.Consistent where
  mem_children p c := by rw [h.children, h.parent, ht.mem_children]
  nodup_children p := by rw [h.children]; exact ht.nodup_children p
  has_root := h.has.mpr ht.has_root
  root_parent := by rw [h.parent, ht.root_parent]
  acyclic := by
    obtain ⟨rank, hrank⟩ := ht.acyclic
    exact ⟨rank, fun n p hp => hrank n p (h.parent n ▸ hp)⟩

/-- Trees of one shape with the same kinds are the same. -/
theorem SameShape.eq (hs : SameShape t t') (hf : t'.fresh = t.fresh)
    (hk : ∀ n, t'.kind n = t.kind n) : t' = t := by
  have hnode : ∀ n, t'.node n = t.node n := fun n =>
    calc t'.node n = ⟨t'.serial n, t'.kind n, t'.parent n, t'.children n⟩ := rfl
      _ = ⟨t.serial n, t.kind n, t.parent n, t.children n⟩ := by
        rw [hs.serial, hk, hs.parent, hs.children]
      _ = t.node n := rfl
  have hnodes : t'.nodes = t.nodes := by
    refine Array.ext hs.size fun i hi' hi => ?_
    have h := hnode ⟨i⟩
    simpa [node, hi, hi'] using h
  cases t
  cases t'
  simp_all

theorem sameShape_setKind (t : Tree) (n : NodeRef) (k : NodeKind) : SameShape t (t.setKind n k) :=
  ⟨by simp, by simp, by simp, by simp⟩

theorem sameShape_foldl_setKind (t : Tree) (ws : List View) :
    SameShape t (ws.foldl (fun t w => t.setKind w.ref w.kind) t) := by
  induction ws generalizing t with
  | nil => exact .refl t
  | cons w ws ih => exact (sameShape_setKind t w.ref w.kind).trans (ih _)

theorem sameShape_mapKinds (t : Tree) (enters : NodeKind → Bool)
    (step : σ → NodeKind → σ × NodeKind) (s : σ) : SameShape t (t.mapKinds enters step s).2 :=
  sameShape_foldl_setKind t _

/-! ### New kinds -/

theorem kind_foldl_setKind {k : NodeKind} {ws : List View} (hn : t.Has n)
    (hk : ∀ w ∈ ws, w.ref = n → w.kind = k) (h : t.kind n = k ∨ ∃ w ∈ ws, w.ref = n) :
    (ws.foldl (fun t w => t.setKind w.ref w.kind) t).kind n = k := by
  induction ws generalizing t with
  | nil => simpa using h
  | cons w ws ih =>
    have hhas : (t.setKind w.ref w.kind).Has n := (sameShape_setKind t _ _).has.mpr hn
    refine ih hhas (fun w hw => hk w (List.mem_cons_of_mem _ hw)) ?_
    rw [kind_setKind]
    by_cases hw : w.ref = n
    · left
      rw [if_pos ⟨hw.symm, hw ▸ hn⟩]
      exact hk w (List.mem_cons_self ..) hw
    · rw [if_neg fun he => hw he.1.symm]
      simpa [hw] using h

theorem kind_foldl_setKind_cases (t : Tree) (n : NodeRef) (ws : List View) :
    (ws.foldl (fun t w => t.setKind w.ref w.kind) t).kind n = t.kind n ∨
      ∃ w ∈ ws, w.ref = n ∧ (ws.foldl (fun t w => t.setKind w.ref w.kind) t).kind n = w.kind := by
  induction ws generalizing t with
  | nil => exact .inl rfl
  | cons w ws ih =>
    rw [List.foldl_cons]
    rcases ih (t.setKind w.ref w.kind) with h | ⟨u, hu, hun, h⟩
    · rw [h, kind_setKind]
      split_ifs with hn
      · exact .inr ⟨w, List.mem_cons_self .., hn.1.symm, rfl⟩
      · exact .inl rfl
    · exact .inr ⟨u, List.mem_cons_of_mem _ hu, hun, h⟩

/-- A pass leaves a kind or puts what its step makes of the kind. -/
theorem kind_mapKinds_cases (t : Tree) (enters : NodeKind → Bool)
    (step : σ → NodeKind → σ × NodeKind) (s : σ) (n : NodeRef) :
    (t.mapKinds enters step s).2.kind n = t.kind n ∨
      ∃ s', (t.mapKinds enters step s).2.kind n = (step s' (t.kind n)).2 := by
  rcases kind_foldl_setKind_cases t n ((t.view root).mapKinds enters step s).2.nodes with
    h | ⟨w, hw, rfl, h⟩
  · exact .inl h
  · obtain ⟨u, hu, href, hkind⟩ := View.exists_of_mem_nodes_mapKinds hw
    rw [kind_of_mem_nodes_view hu, ← href] at hkind
    rcases hkind with hk | ⟨s', hk⟩
    · exact .inl (h.trans hk)
    · exact .inr ⟨s', h.trans hk⟩

theorem fresh_foldl_setKind (t : Tree) (ws : List View) :
    (ws.foldl (fun t w => t.setKind w.ref w.kind) t).fresh = t.fresh := by
  induction ws generalizing t with
  | nil => rfl
  | cons w ws ih => exact ih _

theorem kind_mapKinds_of_not_reaches (h : t.Consistent) (s : σ) (hn : ¬ t.Reaches root n) :
    (t.mapKinds enters step s).2.kind n = t.kind n := by
  rcases kind_foldl_setKind_cases t n ((t.view root).mapKinds enters step s).2.nodes with
    hk | ⟨w, hw, rfl, -⟩
  · exact hk
  · obtain ⟨u, hu, href, -⟩ := View.exists_of_mem_nodes_mapKinds hw
    obtain ⟨x, hx, rfl⟩ := h.mem_nodes_view.mp hu
    rw [href, ref_view] at hn
    exact absurd hx hn

/-- A pass that leaves the kind of every node leaves the tree. -/
theorem Consistent.mapKinds_eq_self (h : t.Consistent) (s : σ)
    (hk : ∀ n, t.Reaches root n → (t.mapKinds enters step s).2.kind n = t.kind n) :
    (t.mapKinds enters step s).2 = t := by
  refine (sameShape_mapKinds t enters step s).eq (fresh_foldl_setKind t _) fun n => ?_
  by_cases hn : t.Reaches root n
  · exact hk n hn
  · exact kind_mapKinds_of_not_reaches h s hn

/-- The states that are possible inside each node, for a pass that gives the kinds `g`. -/
structure Scoped (t : Tree) (enters : NodeKind → Bool) (step : σ → NodeKind → σ × NodeKind)
    (g : NodeRef → NodeKind) (Inside : NodeRef → σ → Prop) : Prop where
  leaf : ∀ x, enters (t.kind x) = false → t.children x = []
  enter : ∀ x p s, t.parent x = some p → Inside p s →
    (step s (t.kind x)).2 = g x ∧ Inside x (step s (t.kind x)).1
  leave : ∀ x p s, t.parent x = some p → Inside x s → Inside p s

namespace Consistent

variable {Inside : NodeRef → σ → Prop}

theorem mapKinds_view (h : t.Consistent) (hs : Scoped t enters step g Inside) {s : σ}
    (hn : (step s (t.kind n)).2 = g n) (hin : Inside n (step s (t.kind n)).1) :
    ((t.view n).mapKinds enters step s).2 = (t.view n).relabel g ∧
      Inside n ((t.view n).mapKinds enters step s).1 := by
  induction n using h.children_induction generalizing s with
  | step n ih =>
    have hlist : ∀ cs : List NodeRef, (∀ c ∈ cs, c ∈ t.children n) → ∀ s, Inside n s →
        (View.mapKindsList enters step s (cs.map t.view)).2 =
            (cs.map t.view).map (View.relabel g) ∧
          Inside n (View.mapKindsList enters step s (cs.map t.view)).1 := by
      intro cs
      induction cs with
      | nil => exact fun _ s hin => ⟨rfl, hin⟩
      | cons c cs ihcs =>
        intro hcs s hin
        have hc : c ∈ t.children n := hcs c (List.mem_cons_self ..)
        have hp := (h.mem_children n c).mp hc
        obtain ⟨hkind, henter⟩ := hs.enter c n s hp hin
        obtain ⟨hview, hinc⟩ := ih c hc hkind henter
        obtain ⟨hrest, hout⟩ := ihcs (fun d hd => hcs d (List.mem_cons_of_mem _ hd)) _
          (hs.leave c n _ hp hinc)
        rw [List.map_cons, View.mapKindsList_cons, List.map_cons, hview, hrest]
        exact ⟨rfl, hout⟩
    rw [h.view_eq n, View.mapKinds_node, View.relabel, hn]
    by_cases he : enters (t.kind n)
    · rw [if_pos he]
      obtain ⟨hview, hout⟩ := hlist (t.children n) (fun _ => id) _ hin
      exact ⟨congrArg _ hview, hout⟩
    · rw [if_neg he, hs.leaf n (by simpa using he)]
      exact ⟨rfl, hin⟩

theorem kind_mapKinds (h : t.Consistent) (hs : Scoped t enters step g Inside) {s : σ}
    (hroot : (step s (t.kind root)).2 = g root) (hin : Inside root (step s (t.kind root)).1)
    (hn : t.Reaches root n) : (t.mapKinds enters step s).2.kind n = g n := by
  have hview := (h.mapKinds_view hs hroot hin).1
  refine kind_foldl_setKind (hn.has h.has_root) (fun w hw href => ?_) (.inr ?_)
  · rw [hview] at hw
    rw [View.kind_of_mem_nodes_relabel hw, href]
  · refine ⟨(t.view n).relabel g, ?_, by simp⟩
    rw [hview, View.nodes_relabel]
    exact List.mem_map_of_mem (h.mem_nodes_view.mpr ⟨n, hn, rfl⟩)

end Consistent

end Tree

end TemplateLang
