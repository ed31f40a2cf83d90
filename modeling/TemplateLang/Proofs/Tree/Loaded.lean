import TemplateLang.Proofs.Result
import TemplateLang.Proofs.Tree.Levels
import TemplateLang.Proofs.Tree.Moves
import TemplateLang.Tree.Load

/-! Loaded trees are consistent, have everything at its level, open their conditional blocks with
a condition, and reach all their nodes from the root. Each step of loading makes one node at the
end of the children of another, which keeps all of this. -/

namespace TemplateLang.Tree

variable {t t' : Tree} {n p x : NodeRef} {k : NodeKind}

structure Loaded (t : Tree) : Prop extends Formed t where
  attached : ∀ n, t.Has n → n ≠ root → ∃ p, t.parent n = some p

/-- Everything in the arena is reached from the root. -/
theorem Loaded.reaches_root (h : t.Loaded) (hn : t.Has n) : t.Reaches root n := by
  induction n using h.consistent.parent_induction with
  | step n ih =>
    by_cases hroot : n = root
    · rw [hroot]
      exact .refl
    · obtain ⟨p, hp⟩ := h.attached n hn hroot
      exact .child (ih p hp (has_of_mem_children ((h.consistent.mem_children p n).mpr hp))) hp

/-! ### Making nodes -/

theorem Consistent.create (h : t.Consistent) (k : NodeKind) : (t.create k).2.Consistent where
  mem_children p c := by rw [children_create, parent_create, h.mem_children]
  nodup_children p := by rw [children_create]; exact h.nodup_children p
  has_root := h.has_root.create k
  root_parent := by rw [parent_create, h.root_parent]
  acyclic := by
    obtain ⟨rank, hrank⟩ := h.acyclic
    exact ⟨rank, fun n p hp => hrank n p (parent_create t k n ▸ hp)⟩

theorem has_create_iff : (t.create k).2.Has x ↔ t.Has x ∨ x = ⟨t.nodes.size⟩ := by
  have hsize := size_nodes_create t k
  constructor
  · intro hx
    by_cases he : x = ⟨t.nodes.size⟩
    · exact .inr he
    · have hne : x.index ≠ t.nodes.size := fun hi => he (congrArg NodeRef.mk hi)
      unfold Has at *
      exact .inl (by omega)
  · rintro (hx | rfl)
    · exact hx.create k
    · unfold Has
      simp

/-- A new node has no parent yet. -/
theorem orphan_size (t : Tree) : t.parent ⟨t.nodes.size⟩ = none := by
  rw [parent, node_size]
  rfl

/-- The tree with a new node at the end of the children of `p`. -/
def grown (t : Tree) (p : NodeRef) (k : NodeKind) : Tree :=
  (t.create k).2.placed p (t.children p).length ⟨t.nodes.size⟩

theorem Consistent.placeable_create (h : t.Consistent) (hp : t.Has p) (k : NodeKind) :
    Placeable (t.create k).2 p ⟨t.nodes.size⟩ where
  has := has_create_iff.mpr (.inr rfl)
  ne_root := fun he => h.has_root.ne_size he.symm
  orphan := by rw [parent_create, orphan_size]
  not_above := by
    intro hr
    rcases ((h.create k).reaches_iff).mp hr with rfl | ⟨c, hc, -⟩
    · exact hp.ne_size rfl
    · rw [children_create] at hc
      exact (has_of_mem_children hc).ne_size rfl

theorem Consistent.added_eq (h : t.Consistent) (hp : (t.kind p).isContainer) (k : NodeKind) :
    t.added p k = .ok (⟨t.nodes.size⟩, t.grown p k) := by
  have hhas := has_of_isContainer hp
  have hr := h.placeable_create hhas k
  have hkind : ((t.create k).2.kind p).isContainer := by
    rwa [kind_create, if_neg hhas.ne_size]
  have hother : (t.create k).2.otherChildren p ⟨t.nodes.size⟩ = (t.children p).length := by
    rw [otherChildren, hr.orphan, children_create]
    simp
  have hinsert := (h.create k).insertChild_eq hkind hr (i := (t.children p).length) (by simp)
  have happend : (t.create k).2.appendChild p ⟨t.nodes.size⟩ = .ok (t.grown p k) := by
    rw [appendChild, hother, hinsert]
    rfl
  simp only [added, add, create_fst, happend]

theorem kind_grown (t : Tree) (p : NodeRef) (k : NodeKind) (x : NodeRef) :
    (t.grown p k).kind x = if x = ⟨t.nodes.size⟩ then k else t.kind x := by
  rw [grown, (sameNodes_placed ..).kind, kind_create]

theorem parent_grown (t : Tree) (p : NodeRef) (k : NodeKind) (x : NodeRef) :
    (t.grown p k).parent x = if x = ⟨t.nodes.size⟩ then some p else t.parent x := by
  rw [grown, parent_placed (has_create_iff.mpr (.inr rfl)), parent_create]

theorem children_grown (hp : t.Has p) (k : NodeKind) (x : NodeRef) :
    (t.grown p k).children x =
      if x = p then t.children p ++ [⟨t.nodes.size⟩] else t.children x := by
  have hinsert := insertIdx_length_append (t.children p) [] ⟨t.nodes.size⟩
  rw [List.append_nil] at hinsert
  rw [grown, children_placed (hp.create k), children_create, children_create, hinsert]

theorem has_grown_iff : (t.grown p k).Has x ↔ t.Has x ∨ x = ⟨t.nodes.size⟩ := by
  rw [grown, (sameNodes_placed ..).has, has_create_iff]

theorem Loaded.grown (h : t.Loaded) (hk : (t.level p).holds k.level) : (t.grown p k).Loaded where
  consistent := by
    have hp := has_of_isContainer (NodeKind.isContainer_of_holds hk)
    refine (h.consistent.create k).placed (hp.create k) (h.consistent.placeable_create hp k) ?_
    rw [children_create]
  leveled := by
    have hp := has_of_isContainer (NodeKind.isContainer_of_holds hk)
    refine ⟨fun c q hq => ?_, ?_⟩
    · rw [parent_grown] at hq
      rw [level, level, kind_grown, kind_grown]
      split_ifs at hq with hc
      · obtain rfl : p = q := Option.some.inj hq
        rwa [if_neg hp.ne_size, if_pos hc]
      · have hhas := has_of_mem_children ((h.consistent.mem_children q c).mpr hq)
        rw [if_neg hhas.ne_size, if_neg hc]
        exact h.leveled.holds c q hq
    · rw [level, kind_grown, if_neg h.consistent.has_root.ne_size]
      exact h.leveled.level_root
  attached := by
    intro n hn hroot
    rw [parent_grown]
    split_ifs with he
    · exact ⟨p, rfl⟩
    · exact h.attached n ((has_grown_iff.mp hn).resolve_right he) hroot

/-- In a block without branches a new node must be a condition. -/
theorem Opened.grown (h : t.Opened) (hc : t.Consistent) (hp : t.Has p)
    (hk : t.level p = .cond → k.opensBlock ∨ t.children p ≠ []) : (t.grown p k).Opened := by
  have hold : ∀ n c, t.level n = .cond → (t.children n).head? = some c →
      ((t.grown p k).kind c).opensBlock := by
    intro n c hn hhead
    have hhas := has_of_parent ((hc.mem_children n c).mp (List.mem_of_head? hhead))
    rw [kind_grown, if_neg hhas.ne_size]
    exact h n c hn hhead
  intro n c hn hhead
  rw [children_grown hp] at hhead
  rw [level, kind_grown] at hn
  split_ifs at hhead with hnp
  · obtain rfl := hnp
    rw [if_neg hp.ne_size] at hn
    cases hchildren : t.children n with
    | nil =>
      rw [hchildren] at hhead
      obtain rfl := Option.some.inj hhead
      rw [kind_grown, if_pos rfl]
      exact (hk hn).resolve_right fun hne => hne hchildren
    | cons b bs =>
      rw [hchildren] at hhead
      exact hold n c hn (by rw [hchildren]; exact hhead)
  · have hhas := has_of_mem_children (List.mem_of_head? hhead)
    rw [if_neg hhas.ne_size] at hn
    exact hold n c hn hhead

/-! ### Loading -/

/-- The nodes of the first tree are in the second, with the same kinds. -/
def Within (t t' : Tree) : Prop := ∀ x, t.Has x → t'.Has x ∧ t'.kind x = t.kind x

theorem Within.trans {t'' : Tree} (h : Within t t') (h' : Within t' t'') : Within t t'' := by
  intro x hx
  obtain ⟨hx', hkind⟩ := h x hx
  obtain ⟨hx'', hkind'⟩ := h' x hx'
  exact ⟨hx'', hkind'.trans hkind⟩

theorem within_grown (t : Tree) (p : NodeRef) (k : NodeKind) : Within t (t.grown p k) := by
  intro x hx
  refine ⟨has_grown_iff.mpr (.inl hx), ?_⟩
  rw [kind_grown, if_neg hx.ne_size]

theorem Within.level_eq (h : Within t t') (hp : t.level p ≠ .leaf) : t'.level p = t.level p := by
  have hhas : t.Has p := by
    by_contra hn
    rw [Tree.level, kind, node_of_not_has hn] at hp
    exact hp rfl
  rw [Tree.level, (h p hhas).2]
  rfl

/-- Loading goes from a loaded tree to one that holds it, with more nodes behind those of each
parent. -/
structure Loads (t t' : Tree) : Prop where
  loaded : t'.Loaded
  within : Within t t'
  behind : ∀ x, t.children x <+: t'.children x
  opened : t.Opened → t'.Opened

theorem Loads.trans {t'' : Tree} (h : Loads t t') (h' : Loads t' t'') : Loads t t'' where
  loaded := h'.loaded
  within := h.within.trans h'.within
  behind x := (h.behind x).trans (h'.behind x)
  opened ht := h'.opened (h.opened ht)

theorem Loads.children_ne_nil (h : Loads t t') (hp : t.children p ≠ []) : t'.children p ≠ [] := by
  obtain ⟨new, hnew⟩ := h.behind p
  rw [← hnew]
  exact fun hnil => hp (List.append_eq_nil_iff.mp hnil).1

theorem Loaded.loads_refl (h : t.Loaded) : Loads t t :=
  ⟨h, fun _ hx => ⟨hx, rfl⟩, fun _ => List.prefix_rfl, id⟩

/-- A node that is made where it may stand. -/
theorem Loaded.loads_added (h : t.Loaded) (hk : (t.level p).holds k.level)
    (hopens : t.level p = .cond → k.opensBlock ∨ t.children p ≠ [])
    (ht : t.added p k = .ok (n, t')) :
    Loads t t' ∧ t'.level n = k.level ∧ t'.children p ≠ [] := by
  have hp := has_of_isContainer (NodeKind.isContainer_of_holds hk)
  rw [h.consistent.added_eq (NodeKind.isContainer_of_holds hk)] at ht
  obtain ⟨rfl, rfl⟩ := Prod.mk.inj (Except.ok.inj ht)
  refine ⟨⟨h.grown hk, within_grown t p k, fun x => ?_, fun ht => ?_⟩, ?_, ?_⟩
  · rw [children_grown hp]
    split_ifs with hx
    · rw [hx]
      exact List.prefix_append ..
    · exact List.prefix_rfl
  · exact ht.grown h.consistent hp hopens
  · rw [Tree.level, kind_grown, if_pos rfl]
  · rw [children_grown hp, if_pos rfl]
    simp

/-- Outside conditional blocks any node may come first. -/
theorem Loaded.loads_added_of_ne_cond (h : t.Loaded) (hk : (t.level p).holds k.level)
    (hp : t.level p ≠ .cond) (ht : t.added p k = .ok (n, t')) :
    Loads t t' ∧ t'.level n = k.level := by
  obtain ⟨hloads, hlevel, -⟩ := h.loads_added hk (fun hcond => absurd hcond hp) ht
  exact ⟨hloads, hlevel⟩

theorem Loaded.loads_addedItem (h : t.Loaded) (hp : (t.level p).ownsBody) (hk : k.level.isItem)
    (ht : t.added p k = .ok (n, t')) : Loads t t' ∧ t'.level n = k.level := by
  refine h.loads_added_of_ne_cond (Level.holds_of_ownsBody hp hk) (fun hcond => ?_) ht
  rw [hcond] at hp
  cases hp

theorem Loaded.loads_addedLeaf (h : t.Loaded) (hp : (t.level p).ownsBody)
    (hk : k.level = .leaf) (ht : t.addedLeaf p k = .ok t') : Loads t t' := by
  cases hadd : t.added p k with
  | error e =>
    rw [addedLeaf, hadd] at ht
    cases ht
  | ok r =>
    obtain ⟨n, t₁⟩ := r
    rw [addedLeaf, hadd] at ht
    obtain rfl : t₁ = t' := Except.ok.inj ht
    exact (h.loads_addedItem hp (by rw [hk]; rfl) hadd).1

mutual

theorem loads_addItem : ∀ (item : Item) {t t' : Tree} {p : NodeRef}, t.Loaded →
    (t.level p).ownsBody → t.addItem p item = .ok t' → Loads t t'
  | .text content, t, t', p, h, hp, ht => h.loads_addedLeaf hp rfl (by rwa [addItem] at ht)
  | .print expr directives escape, t, t', p, h, hp, ht =>
    h.loads_addedLeaf hp rfl (by rwa [addItem] at ht)
  | .call callee passesData, t, t', p, h, hp, ht =>
    h.loads_addedLeaf hp rfl (by rwa [addItem] at ht)
  | .cond branches none, t, t', p, h, hp, ht => by
    rw [addItem] at ht
    split_ifs at ht
    obtain ⟨⟨n, t₁⟩, hadd, ht⟩ := bind_eq_ok.mp ht
    obtain ⟨h₁, hlevel⟩ := h.loads_addedItem hp rfl hadd
    obtain ⟨t₂, hbranches, ht⟩ := bind_eq_ok.mp ht
    obtain rfl : t₂ = t' := Except.ok.inj ht
    exact h₁.trans (loads_addBranches branches h₁.loaded hlevel hbranches).1
  | .cond branches (some body), t, t', p, h, hp, ht => by
    rw [addItem] at ht
    split_ifs at ht with hempty
    obtain ⟨⟨n, t₁⟩, hadd, ht⟩ := bind_eq_ok.mp ht
    obtain ⟨h₁, hlevel⟩ := h.loads_addedItem hp rfl hadd
    obtain ⟨t₂, hbranches, ht⟩ := bind_eq_ok.mp ht
    obtain ⟨h₂, hne⟩ := loads_addBranches branches h₁.loaded hlevel hbranches
    obtain ⟨⟨o, t₃⟩, hother, ht⟩ := bind_eq_ok.mp ht
    have hcond : t₂.level n = .cond := (h₂.within.level_eq (by rw [hlevel]; decide)).trans hlevel
    -- the block has branches by now, so that the last one does not open it
    have hopens : t₂.children n ≠ [] := hne (by simpa using hempty)
    obtain ⟨h₃, hlevel₃, -⟩ :=
      h₂.loaded.loads_added (by rw [hcond]; rfl) (fun _ => .inr hopens) hother
    exact h₁.trans (h₂.trans (h₃.trans (loads_addItems body h₃.loaded (by rw [hlevel₃]; rfl) ht)))
  | .msg key desc body, t, t', p, h, hp, ht => by
    rw [addItem] at ht
    obtain ⟨⟨n, t₁⟩, hadd, ht⟩ := bind_eq_ok.mp ht
    obtain ⟨h₁, hlevel⟩ := h.loads_addedItem hp rfl hadd
    exact h₁.trans (loads_addItems body h₁.loaded (by rw [hlevel]; rfl) ht)

theorem loads_addItems : ∀ (items : List Item) {t t' : Tree} {p : NodeRef}, t.Loaded →
    (t.level p).ownsBody → t.addItems p items = .ok t' → Loads t t'
  | [], t, t', p, h, hp, ht => by
    rw [addItems] at ht
    obtain rfl : t = t' := Except.ok.inj ht
    exact h.loads_refl
  | item :: rest, t, t', p, h, hp, ht => by
    rw [addItems] at ht
    obtain ⟨t₁, hitem, ht⟩ := bind_eq_ok.mp ht
    have h₁ := loads_addItem item h hp hitem
    have hlevel := h₁.within.level_eq (p := p) (by rintro he; rw [he] at hp; cases hp)
    exact h₁.trans (loads_addItems rest h₁.loaded (by rwa [hlevel]) ht)

theorem loads_addBranch : ∀ (b : Branch) {t t' : Tree} {p : NodeRef}, t.Loaded →
    t.level p = .cond → t.addBranch p b = .ok t' → Loads t t' ∧ t'.children p ≠ []
  | .mk condition body, t, t', p, h, hp, ht => by
    rw [addBranch] at ht
    obtain ⟨⟨n, t₁⟩, hadd, ht⟩ := bind_eq_ok.mp ht
    obtain ⟨h₁, hlevel, hne⟩ := h.loads_added (by rw [hp]; rfl) (fun _ => .inl rfl) hadd
    have h₂ := loads_addItems body h₁.loaded (by rw [hlevel]; rfl) ht
    exact ⟨h₁.trans h₂, h₂.children_ne_nil hne⟩

theorem loads_addBranches : ∀ (bs : List Branch) {t t' : Tree} {p : NodeRef}, t.Loaded →
    t.level p = .cond → t.addBranches p bs = .ok t' →
    Loads t t' ∧ (bs ≠ [] → t'.children p ≠ [])
  | [], t, t', p, h, hp, ht => by
    rw [addBranches] at ht
    obtain rfl : t = t' := Except.ok.inj ht
    exact ⟨h.loads_refl, fun hne => absurd rfl hne⟩
  | b :: rest, t, t', p, h, hp, ht => by
    rw [addBranches] at ht
    obtain ⟨t₁, hb, ht⟩ := bind_eq_ok.mp ht
    obtain ⟨h₁, hne⟩ := loads_addBranch b h hp hb
    have hlevel := h₁.within.level_eq (p := p) (by rw [hp]; decide)
    obtain ⟨h₂, -⟩ := loads_addBranches rest h₁.loaded (hlevel.trans hp) ht
    exact ⟨h₁.trans h₂, fun _ => h₂.children_ne_nil hne⟩

end

theorem Loaded.loads_foldlM {α : Type} {f : Tree → α → Except TreeError Tree} {l : Level}
    (hl : l ≠ .leaf) (items : List α) (h : t.Loaded) (hp : t.level p = l)
    (step : ∀ {t t' : Tree} (a : α), t.Loaded → t.level p = l → f t a = .ok t' → Loads t t')
    (ht : items.foldlM f t = .ok t') : Loads t t' := by
  induction items generalizing t with
  | nil =>
    obtain rfl : t = t' := Except.ok.inj ht
    exact h.loads_refl
  | cons a items ih =>
    rw [List.foldlM_cons] at ht
    obtain ⟨t₁, ha, ht⟩ := bind_eq_ok.mp ht
    have h₁ := step a h hp ha
    exact h₁.trans (ih h₁.loaded ((h₁.within.level_eq (hp ▸ hl)).trans hp) ht)

theorem Loaded.loads_addTemplate (d : TemplateDescription) (h : t.Loaded)
    (hp : t.level p = .file) (ht : t.addTemplate p d = .ok t') : Loads t t' := by
  rw [addTemplate] at ht
  obtain ⟨⟨n, t₁⟩, hadd, ht⟩ := bind_eq_ok.mp ht
  obtain ⟨h₁, hlevel⟩ := h.loads_added_of_ne_cond (by rw [hp]; rfl) (by rw [hp]; decide) hadd
  exact h₁.trans (loads_addItems d.body h₁.loaded (by rw [hlevel]; rfl) ht)

theorem Loaded.loads_addFile (d : FileDescription) (h : t.Loaded)
    (ht : t.addFile d = .ok t') : Loads t t' := by
  rw [addFile] at ht
  obtain ⟨⟨n, t₁⟩, hadd, ht⟩ := bind_eq_ok.mp ht
  have hroot := h.leveled.level_root
  obtain ⟨h₁, hlevel⟩ :=
    h.loads_added_of_ne_cond (by rw [hroot]; rfl) (by rw [hroot]; decide) hadd
  exact h₁.trans (h₁.loaded.loads_foldlM (l := .file) (by decide) d.templates hlevel
    (fun d h hp => h.loads_addTemplate d hp) ht)

theorem node_new (fresh : ℕ) (x : NodeRef) :
    (new fresh).node x = if x = root then ⟨fresh, .fileSet, none, []⟩ else absent := by
  rw [new, node_create]
  split_ifs with h h' h'
  · rfl
  · exact absurd h h'
  · exact absurd h' h
  · exact node_of_not_has (Nat.not_lt_zero _)

theorem children_new (fresh : ℕ) (x : NodeRef) : (new fresh).children x = [] := by
  rw [children, node_new]
  split_ifs <;> rfl

theorem loaded_new (fresh : ℕ) : (new fresh).Loaded := by
  have hparent : ∀ x, (new fresh).parent x = none := by
    intro x
    rw [parent, node_new]
    split_ifs <;> rfl
  refine ⟨⟨⟨fun p c => ?_, fun p => ?_, ?_, hparent root, fun _ => 0, fun n p hp => ?_⟩,
    fun n p hp => ?_, rfl⟩, fun n hn hroot => ?_⟩
  · simp [hparent, children_new]
  · simp [children_new]
  · exact Nat.zero_lt_one
  · simp [hparent] at hp
  · simp [hparent] at hp
  · refine absurd (congrArg NodeRef.mk ?_) hroot
    have hsize : (new fresh).nodes.size = 1 := rfl
    unfold Has at hn
    omega

theorem opened_new (fresh : ℕ) : (new fresh).Opened := by
  intro n c _ hc
  rw [children_new] at hc
  cases hc

theorem loads_of_load {fresh : ℕ} {text : String} (ht : Tree.load fresh text = .ok t) :
    Loads (new fresh) t := by
  rw [Tree.load] at ht
  cases hd : FileSetDescription.ofText? text with
  | none => simp [hd] at ht
  | some d =>
    simp only [hd] at ht
    cases hbuild : ofDescription fresh d with
    | error e => simp [hbuild, Except.mapError] at ht
    | ok t₁ =>
      rw [hbuild] at ht
      obtain rfl : t₁ = t := Except.ok.inj ht
      exact (loaded_new fresh).loads_foldlM (by decide) d.files
        (loaded_new fresh).leveled.level_root (fun d h _ => h.loads_addFile d) hbuild

/-- Every tree that loading gives is loaded. -/
theorem loaded_of_load {fresh : ℕ} {text : String} (ht : Tree.load fresh text = .ok t) :
    t.Loaded :=
  (loads_of_load ht).loaded

/-- In every tree that loading gives, conditional blocks open with a condition. -/
theorem opened_of_load {fresh : ℕ} {text : String} (ht : Tree.load fresh text = .ok t) :
    t.Opened :=
  (loads_of_load ht).opened (opened_new fresh)

end TemplateLang.Tree
