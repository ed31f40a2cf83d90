import TemplateLang.Proofs.Tree.Faithful
import TemplateLang.Proofs.Tree.Scopes
import TemplateLang.Proofs.Tree.Shape

/-! Well-shaped trees: what may stand below a node, and in which order, as far as the root reaches.
Levels say which kinds may stand below which; a conditional block asks for more, an order of its
branches. Loading gives a well-shaped tree, and changing kinds at their levels keeps one. -/

namespace TemplateLang

/-- Whether a node of the first kind may own nodes of these kinds, in this order. -/
def NodeKind.Owns : NodeKind → List NodeKind → Prop
  | .fileSet, ks => ∀ k ∈ ks, k.level = .file
  | .file .., ks => ∀ k ∈ ks, k.level = .template
  | .cond, ks => ∃ branches last, ks = branches ++ last ∧ branches ≠ [] ∧
      (∀ k ∈ branches, k.opensBlock) ∧ (last = [] ∨ last = [.otherwise])
  | .text _, ks | .print .., ks | .call .., ks => ks = []
  | .template .., ks | .branch _, ks | .otherwise, ks | .msg .., ks => ∀ k ∈ ks, k.level.isItem

/-- Everything in a view stands where it may. -/
def View.WellShaped (v : View) : Prop := ∀ w ∈ v.nodes, w.kind.Owns (w.children.map View.kind)

/-- The root is a set of files, and everything below it stands where it may. -/
structure Tree.WellShaped (t : Tree) : Prop where
  kind_root : t.kind root = .fileSet
  owns : ∀ n, t.Reaches root n → (t.kind n).Owns ((t.children n).map t.kind)

namespace NodeKind

variable {k k' : NodeKind} {ks : List NodeKind}

theorem level_of_opensBlock (h : k.opensBlock) : k.level = .branch := by
  cases k with
  | branch condition => rfl
  | _ => cases h

theorem eq_otherwise (h : k.level = .branch) (hopens : k.opensBlock = false) : k = .otherwise := by
  cases k with
  | otherwise => rfl
  | branch condition => cases hopens
  | _ => cases h

theorem eq_fileSet (h : k.level = .fileSet) : k = .fileSet := by
  cases k with
  | fileSet => rfl
  | _ => cases h

/-- What stands below a node stands at its level. -/
theorem Owns.holds (h : k.Owns ks) {c : NodeKind} (hc : c ∈ ks) : k.level.holds c.level := by
  cases k with
  | cond =>
    obtain ⟨branches, last, rfl, -, hopens, hlast⟩ := h
    have hbranch : c.level = .branch := by
      rcases List.mem_append.mp hc with hc | hc
      · exact level_of_opensBlock (hopens c hc)
      · rcases hlast with rfl | rfl
        · cases hc
        · rw [List.mem_singleton.mp hc]
          rfl
    rw [hbranch]
    rfl
  | text | print | call =>
    obtain rfl : ks = [] := h
    cases hc
  | fileSet | file =>
    rw [h c hc]
    rfl
  | template | branch | otherwise | msg => exact Level.holds_of_ownsBody rfl (h c hc)

/-- Where bodies may stand, any items may. -/
theorem owns_of_ownsBody (hk : k.level.ownsBody) (h : ∀ c ∈ ks, c.level.isItem) : k.Owns ks := by
  cases k with
  | template | branch | otherwise | msg => exact h
  | _ => cases hk

theorem owns_nil_of_leaf (h : k.level = .leaf) : k.Owns [] := by
  cases k with
  | text | print | call => rfl
  | _ => cases h

/-- What may stand below a node depends on levels, and on which branches have conditions. -/
theorem Owns.congr {α : Type} {f g : α → NodeKind} {cs : List α} (h : k.Owns (cs.map f))
    (hk : k'.level = k.level) (hlevel : ∀ c ∈ cs, (g c).level = (f c).level)
    (hopens : ∀ c ∈ cs, (g c).opensBlock = (f c).opensBlock) : k'.Owns (cs.map g) := by
  have hsame : ∀ {l : Level → Prop}, (∀ c ∈ cs.map f, l c.level) → ∀ c ∈ cs.map g, l c.level := by
    intro l hl c hc
    obtain ⟨a, ha, rfl⟩ := List.mem_map.mp hc
    rw [hlevel a ha]
    exact hl _ (List.mem_map_of_mem ha)
  cases k with
  | cond =>
    obtain ⟨branches, last, heq, hne, hbranches, hlast⟩ := h
    obtain ⟨bs, os, rfl, rfl, rfl⟩ := List.map_eq_append_iff.mp heq
    obtain rfl : k' = .cond := by
      cases k' with
      | cond => rfl
      | _ => cases hk
    refine ⟨bs.map g, os.map g, List.map_append, by simpa using hne, ?_, ?_⟩
    · intro c hc
      obtain ⟨b, hb, rfl⟩ := List.mem_map.mp hc
      rw [hopens b (List.mem_append_left _ hb)]
      exact hbranches _ (List.mem_map_of_mem hb)
    · refine hlast.imp (fun hnil => by simpa using hnil) fun hone => ?_
      obtain ⟨o, rfl, ho⟩ := List.map_eq_singleton_iff.mp hone
      have hmem : o ∈ bs ++ [o] := List.mem_append_right _ (List.mem_singleton_self o)
      rw [List.map_singleton, eq_otherwise ((hlevel o hmem).trans (by rw [ho]; rfl))
        ((hopens o hmem).trans (by rw [ho]; rfl))]
  | text | print | call =>
    obtain rfl : cs = [] := List.map_eq_nil_iff.mp h
    cases k' with
    | text | print | call => rfl
    | _ => cases hk
  | fileSet =>
    obtain rfl := eq_fileSet hk
    exact hsame (l := (· = .file)) h
  | file =>
    cases k' with
    | file => exact hsame (l := (· = .template)) h
    | _ => cases hk
  | template | branch | otherwise | msg =>
    exact owns_of_ownsBody (by rw [hk]; rfl) (hsame (l := (·.isItem = true)) h)

end NodeKind

/-! ### Loaded trees -/

namespace View

theorem wellShaped_node {ref : NodeRef} {serial : ℕ} {kind : NodeKind} {children : List View} :
    (View.node ref serial kind children).WellShaped ↔
      kind.Owns (children.map View.kind) ∧ ∀ c ∈ children, c.WellShaped :=
  forall_nodes_node

theorem map_kind_numberedList (fresh i : ℕ) (vs : List View) :
    (numberedList fresh i vs).map kind = vs.map kind := by
  induction vs generalizing i with
  | nil => rfl
  | cons v vs ih => rw [numberedList, List.map_cons, List.map_cons, kind_numbered, ih]

mutual

theorem wellShaped_numbered (fresh : ℕ) : ∀ (v : View) (i : ℕ), v.WellShaped →
    (v.numbered fresh i).WellShaped
  | .node ref serial kind children, i, h => by
    obtain ⟨howns, hbelow⟩ := wellShaped_node.mp h
    rw [numbered_node, wellShaped_node, map_kind_numberedList]
    exact ⟨howns, wellShaped_numberedList fresh children (i + 1) hbelow⟩

theorem wellShaped_numberedList (fresh : ℕ) : ∀ (vs : List View) (i : ℕ),
    (∀ v ∈ vs, v.WellShaped) → ∀ v ∈ numberedList fresh i vs, v.WellShaped
  | [], i, _ => by simp [numberedList]
  | v :: rest, i, h => by
    rw [numberedList]
    exact List.forall_mem_cons.mpr ⟨wellShaped_numbered fresh v i (h v (List.mem_cons_self ..)),
      wellShaped_numberedList fresh rest _ fun u hu => h u (List.mem_cons_of_mem _ hu)⟩

end

theorem wellShaped_leaf {kind : NodeKind} (h : kind.level = .leaf) : (leaf kind).WellShaped := by
  rw [leaf, wellShaped_node]
  exact ⟨NodeKind.owns_nil_of_leaf h, by simp⟩

/-- A body of items that stand where they may. -/
theorem wellShaped_body {kind : NodeKind} {vs : List View} (hk : kind.level.ownsBody)
    (h : ∀ v ∈ vs, v.kind.level.isItem ∧ v.WellShaped) :
    (View.node Tree.root 0 kind vs).WellShaped := by
  refine wellShaped_node.mpr ⟨NodeKind.owns_of_ownsBody hk fun k hm => ?_, fun v hv => (h v hv).2⟩
  obtain ⟨v, hv, rfl⟩ := List.mem_map.mp hm
  exact (h v hv).1

theorem wellShaped_cond {branches last : List View} (hne : branches ≠ [])
    (h : ∀ v ∈ branches, v.kind.opensBlock ∧ v.WellShaped)
    (hlast : last = [] ∨ ∃ o : View, last = [o] ∧ o.kind = .otherwise ∧ o.WellShaped) :
    (View.node Tree.root 0 .cond (branches ++ last)).WellShaped := by
  refine wellShaped_node.mpr
    ⟨⟨branches.map kind, last.map kind, List.map_append, by simpa using hne, ?_, ?_⟩, ?_⟩
  · intro k hk
    obtain ⟨v, hv, rfl⟩ := List.mem_map.mp hk
    exact (h v hv).1
  · rcases hlast with rfl | ⟨o, rfl, ho, -⟩
    · exact .inl rfl
    · exact .inr (by rw [List.map_singleton, ho])
  · intro v hv
    rcases List.mem_append.mp hv with hv | hv
    · exact (h v hv).2
    · rcases hlast with rfl | ⟨o, rfl, -, ho⟩
      · cases hv
      · rwa [List.mem_singleton.mp hv]

mutual

theorem wellShaped_toView : ∀ item : Item, item.isBranched →
    item.toView.kind.level.isItem ∧ item.toView.WellShaped
  | .text content, _ => ⟨rfl, wellShaped_leaf rfl⟩
  | .print expr directives escape, _ => ⟨rfl, wellShaped_leaf rfl⟩
  | .call callee passesData, _ => ⟨rfl, wellShaped_leaf rfl⟩
  | .msg key desc body, h => by
    rw [Item.toView]
    exact ⟨rfl, wellShaped_body rfl (wellShaped_toViews body (by rwa [Item.isBranched] at h))⟩
  | .cond branches none, h => by
    rw [Item.isBranched, Bool.and_eq_true] at h
    obtain ⟨hne, hbranches⟩ := wellShaped_branches branches h.2
    rw [Item.toView, ← List.append_nil (Branch.toViews branches)]
    exact ⟨rfl, wellShaped_cond (hne (by simpa using h.1)) hbranches (.inl rfl)⟩
  | .cond branches (some body), h => by
    rw [Item.isBranched, Bool.and_eq_true, Bool.and_eq_true] at h
    obtain ⟨hne, hbranches⟩ := wellShaped_branches branches h.1.2
    rw [Item.toView]
    exact ⟨rfl, wellShaped_cond (hne (by simpa using h.1.1)) hbranches
      (.inr ⟨_, rfl, rfl, wellShaped_body rfl (wellShaped_toViews body h.2)⟩)⟩

theorem wellShaped_toViews : ∀ items : List Item, Item.allBranched items →
    ∀ v ∈ Item.toViews items, v.kind.level.isItem ∧ v.WellShaped
  | [], _ => by simp [Item.toViews]
  | item :: rest, h => by
    rw [Item.allBranched, Bool.and_eq_true] at h
    rw [Item.toViews]
    exact List.forall_mem_cons.mpr ⟨wellShaped_toView item h.1, wellShaped_toViews rest h.2⟩

theorem wellShaped_branches : ∀ branches : List Branch, Branch.allBranched branches →
    (branches ≠ [] → Branch.toViews branches ≠ []) ∧
      ∀ v ∈ Branch.toViews branches, v.kind.opensBlock ∧ v.WellShaped
  | [], _ => by simp [Branch.toViews]
  | .mk condition body :: rest, h => by
    rw [Branch.allBranched, Bool.and_eq_true] at h
    rw [Branch.toViews]
    exact ⟨fun _ => List.cons_ne_nil _ _, List.forall_mem_cons.mpr
      ⟨⟨rfl, wellShaped_body rfl (wellShaped_toViews body h.1)⟩, (wellShaped_branches rest h.2).2⟩⟩

end

theorem wellShaped_fileSet {d : FileSetDescription} (h : d.isBranched) : d.toView.WellShaped := by
  have hbodies : ∀ file ∈ d.files, ∀ template ∈ file.templates,
      Item.allBranched template.body := by
    simpa [FileSetDescription.isBranched, List.all_eq_true] using h
  rw [FileSetDescription.toView, wellShaped_node]
  refine ⟨fun k hk => ?_, fun v hv => ?_⟩
  · obtain ⟨v, hv, rfl⟩ := List.mem_map.mp hk
    obtain ⟨file, -, rfl⟩ := List.mem_map.mp hv
    rfl
  · obtain ⟨file, hfile, rfl⟩ := List.mem_map.mp hv
    rw [FileDescription.toView, wellShaped_node]
    refine ⟨fun k hk => ?_, fun v hv => ?_⟩
    · obtain ⟨v, hv, rfl⟩ := List.mem_map.mp hk
      obtain ⟨template, -, rfl⟩ := List.mem_map.mp hv
      rfl
    · obtain ⟨template, htemplate, rfl⟩ := List.mem_map.mp hv
      exact wellShaped_body rfl (wellShaped_toViews _ (hbodies file hfile template htemplate))

end View

namespace Tree

variable {t t' : Tree}

/-- A tree is well-shaped when its view is. -/
theorem Consistent.wellShaped_of_view (h : t.Consistent) (hroot : t.kind root = .fileSet)
    (hv : (t.view root).WellShaped) : t.WellShaped := by
  refine ⟨hroot, fun n hn => ?_⟩
  have howns := hv (t.view n) (h.mem_nodes_view.mpr ⟨n, hn, rfl⟩)
  have hkinds : (t.children n).map (View.kind ∘ t.view) = (t.children n).map t.kind :=
    List.map_congr_left fun c _ => kind_view t c
  rwa [kind_view, h.children_view, List.map_map, hkinds] at howns

theorem wellShaped_of_load {fresh : ℕ} {text : String} (ht : Tree.load fresh text = .ok t) :
    t.WellShaped := by
  have h := loaded_of_load ht
  obtain ⟨d, -, hb, hview⟩ := of_load ht
  refine h.consistent.wellShaped_of_view h.toFormed.kind_root ?_
  rw [hview]
  exact View.wellShaped_numbered fresh d.toView 0 (View.wellShaped_fileSet hb)

/-! ### Changes of kinds -/

theorem WellShaped.of_sameShape (h : t.WellShaped) (hs : SameShape t t')
    (hlevel : ∀ x, t'.level x = t.level x)
    (hopens : ∀ x, (t'.kind x).opensBlock = (t.kind x).opensBlock) : t'.WellShaped where
  kind_root := by
    have hroot := hlevel root
    rw [level, level, h.kind_root] at hroot
    exact NodeKind.eq_fileSet hroot
  owns n hn := by
    rw [hs.children]
    exact (h.owns n (hs.reaches.mp hn)).congr (hlevel n) (fun c _ => hlevel c) fun c _ => hopens c

theorem WellShaped.mapKinds {σ : Type} {enters : NodeKind → Bool}
    {step : σ → NodeKind → σ × NodeKind} (h : t.WellShaped)
    (hlevel : ∀ s k, (step s k).2.level = k.level)
    (hopens : ∀ s k, (step s k).2.opensBlock = k.opensBlock) (s : σ) :
    (t.mapKinds enters step s).2.WellShaped := by
  refine h.of_sameShape (sameShape_mapKinds t enters step s) (level_mapKinds hlevel s) fun n => ?_
  rcases kind_mapKinds_cases t enters step s n with hk | ⟨s', hk⟩
  · rw [hk]
  · rw [hk, hopens]

end Tree

end TemplateLang
