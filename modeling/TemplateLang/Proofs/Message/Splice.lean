import TemplateLang.Proofs.Message.Parts

/-! Replacing one message. Its parent gets the nodes of the parts or the content of the message
in its place, and what lies neither below the message nor directly above it stays as it is. -/

namespace TemplateLang

namespace View

/-- Parts become nodes without children. -/
theorem level_of_mem_partKinds {msg : View} {parts : List MessagePart} {ks : List NodeKind}
    (h : msg.partKinds parts = some ks) {k : NodeKind} (hk : k ∈ ks) : k.level = .leaf := by
  induction parts generalizing ks with
  | nil =>
    obtain rfl := Option.some.inj h
    simp at hk
  | cons part parts ih =>
    obtain ⟨k', hk', ks', hks, rfl⟩ : ∃ k, msg.partKind part = some k ∧
        ∃ ks', msg.partKinds parts = some ks' ∧ k :: ks' = ks := by
      simpa [partKinds, Option.bind_eq_some_iff] using h
    rcases List.mem_cons.mp hk with rfl | hk
    · cases part with
      | text content =>
        obtain rfl : .text content = k := Option.some.inj hk'
        rfl
      | placeholder name =>
        obtain ⟨w, hw, rfl⟩ := Option.map_eq_some_iff.mp hk'
        obtain ⟨-, hprint⟩ := isPrint_of_placeholder? hw
        cases hkind : w.kind <;> simp_all [NodeKind.isPrint, NodeKind.level]
    · exact ih hks hk

end View

namespace Tree

variable {t t' t₁ : Tree} {n p r x : NodeRef} {rs : List NodeRef} {bundle : Option Bundle}

/-- The nodes `rs` have taken the place of `n`. Each is new or was below `n`. -/
structure Exchanged (t t' : Tree) (n : NodeRef) (rs : List NodeRef) : Prop where
  consistent : t'.Consistent
  has : ∀ x, t.Has x → t'.Has x
  kind : ∀ x, t.Has x → t'.kind x = t.kind x
  serial : ∀ x, t.Has x → t'.serial x = t.serial x
  parent : ∀ x, t'.parent x =
    if x ∈ rs then t.parent n else if x = n then none else t.parent x
  children : ∀ x, t'.children x = (t.children x).flatMap (substitute n rs)
  source : ∀ r ∈ rs, ¬ t.Has r ∨ t.Reaches n r ∧ r ≠ n

/-- The same in a tree that stays formed. -/
structure Spliced (t t' : Tree) (n : NodeRef) (rs : List NodeRef) : Prop
    extends Exchanged t t' n rs where
  leveled : t'.Leveled

theorem Spliced.formed (hs : Spliced t t' n rs) : t'.Formed := ⟨hs.consistent, hs.leveled⟩

theorem not_reaches_of_not_has (h : t.Consistent) (hr : ¬ t.Has r) (hx : t.Has x) :
    ¬ t.Reaches r x := by
  intro hrx
  rcases h.reaches_iff.mp hrx with rfl | ⟨c, hc, -⟩
  · exact hr hx
  · exact hr (has_of_mem_children hc)

/-- Nodes that are new or below `n` are not above what is not below `n`. -/
theorem Consistent.not_reaches_of_source (h : t.Consistent)
    (hr : ¬ t.Has r ∨ t.Reaches n r ∧ r ≠ n) (hx : t.Has x) (hnx : ¬ t.Reaches n x) :
    ¬ t.Reaches r x := by
  rcases hr with hr | ⟨hnr, -⟩
  · exact not_reaches_of_not_has h hr hx
  · exact fun hrx => hnx (hnr.trans hrx)

/-- Nodes that are new or below a node can take its place. -/
theorem Consistent.replaceable (hc : t.Consistent) (hg : Grown t t₁) (hp : t.parent n = some p)
    (hcontainer : (t.kind p).isContainer) (hnodup : rs.Nodup) (hhas : ∀ r ∈ rs, t₁.Has r)
    (hsource : ∀ r ∈ rs, ¬ t.Has r ∨ t.Reaches n r ∧ r ≠ n) : Replaceable t₁ n p rs := by
  have hhasp := has_of_isContainer hcontainer
  refine ⟨by rw [hg.parent, hp], by rwa [hg.kind p hhasp], hnodup, hhas, ?_, ?_, ?_⟩
  · rintro r hr rfl
    rcases hsource root hr with hnot | ⟨hreach, -⟩
    · exact hnot hc.has_root
    · rcases hreach.eq_or_parent with rfl | ⟨q, hq, -⟩
      · rw [hc.root_parent] at hp
        cases hp
      · rw [hc.root_parent] at hq
        cases hq
  · rintro r hr rfl
    rcases hsource r hr with hnot | ⟨-, hne⟩
    · exact hnot (has_of_parent hp)
    · exact hne rfl
  · intro r hr hrp
    exact hc.not_reaches_of_source (hsource r hr) hhasp (hc.not_reaches_parent hp)
      (hg.reaches hrp)

/-- Below a container such nodes do take the place. -/
theorem Consistent.exists_exchanged (h : t.Consistent) (hg : Grown t t₁)
    (hp : t.parent n = some p) (hcontainer : (t.kind p).isContainer) (hnodup : rs.Nodup)
    (hhas : ∀ r ∈ rs, t₁.Has r) (hsource : ∀ r ∈ rs, ¬ t.Has r ∨ t.Reaches n r ∧ r ≠ n) :
    ∃ t', t₁.replaceWith n rs = (.ok (), t') ∧ Exchanged t t' n rs ∧ SameNodes t₁ t' := by
  obtain ⟨t', heq, hc', hparent, hchildren⟩ := (hg.consistent h).replaceWith
    (h.replaceable hg hp hcontainer hnodup hhas hsource)
  have hnodes : SameNodes t₁ t' := by
    have := sameNodes_replaceWith t₁ n rs
    rwa [heq] at this
  refine ⟨t', heq, ⟨hc', fun x hx => ?_, fun x hx => ?_, fun x hx => ?_, fun x => ?_, fun x => ?_,
    hsource⟩, hnodes⟩
  · exact hnodes.has.mpr (hg.has x hx)
  · rw [hnodes.kind, hg.kind x hx]
  · rw [hnodes.serial, hg.serial x hx]
  · rw [hparent, hg.parent, hp]
  · rw [hchildren, hg.children]

/-- Items of bodies that take the place of a message stand where they may. -/
theorem Formed.leveled_replaceWith (h : t.Formed) (hg : Grown t t₁) (hk : t.level n = .message)
    (hp : t.parent n = some p) (hitem : ∀ r ∈ rs, (t₁.level r).isItem) (hnodes : SameNodes t₁ t')
    (hparent : ∀ x, t'.parent x =
      if x ∈ rs then some p else if x = n then none else t₁.parent x) : t'.Leveled where
  holds x q hq := by
    have hc := h.consistent
    have hhold : (t.level p).holds .message := hk ▸ h.leveled.holds n p hp
    have hlevel : ∀ x, t.Has x → t'.level x = t.level x := by
      intro x hx
      rw [level, level, hnodes.kind, hg.kind x hx]
    rw [hparent] at hq
    split_ifs at hq with hx hxn
    · obtain rfl : p = q := Option.some.inj hq
      have hl : t'.level x = t₁.level x := by rw [level, level, hnodes.kind]
      rw [hlevel p (has_of_mem_children ((hc.mem_children p n).mpr hp)), hl]
      exact Level.holds_of_ownsBody (Level.ownsBody_of_holds_message hhold) (hitem x hx)
    · rw [hg.parent] at hq
      rw [hlevel x (has_of_parent hq),
        hlevel q (has_of_mem_children ((hc.mem_children q x).mpr hq))]
      exact h.leveled.holds x q hq
  level_root := by
    rw [level, hnodes.kind, hg.kind root h.consistent.has_root]
    exact h.leveled.level_root

theorem Formed.exists_replaceWith (h : t.Formed) (hg : Grown t t₁) (hk : t.level n = .message)
    (hp : t.parent n = some p) (hnodup : rs.Nodup) (hhas : ∀ r ∈ rs, t₁.Has r)
    (hitem : ∀ r ∈ rs, (t₁.level r).isItem)
    (hsource : ∀ r ∈ rs, ¬ t.Has r ∨ t.Reaches n r ∧ r ≠ n) :
    ∃ t', t₁.replaceWith n rs = (.ok (), t') ∧ Spliced t t' n rs := by
  have hcontainer := NodeKind.isContainer_of_holds (h.leveled.holds n p hp)
  obtain ⟨t', heq, hs, hnodes⟩ :=
    h.consistent.exists_exchanged hg hp hcontainer hnodup hhas hsource
  refine ⟨t', heq, hs, h.leveled_replaceWith hg hk hp hitem hnodes fun x => ?_⟩
  rw [hs.parent, hg.parent, hp]

/-! ### What stays -/

theorem flatMap_substitute_eq_self {cs : List NodeRef} (hn : n ∉ cs) (hrs : ∀ c ∈ cs, c ∉ rs) :
    cs.flatMap (substitute n rs) = cs := by
  rw [flatMap_substitute_of_not_mem hn, List.filter_eq_self]
  simpa using hrs

/-- On the way to what is not below the replaced node no node moves. -/
theorem Exchanged.parent_eq (hs : Exchanged t t' n rs) (h : t.Consistent) {y : NodeRef}
    (hx : t.Has x) (hnx : ¬ t.Reaches n x) (hy : t.Reaches y x) : t'.parent y = t.parent y := by
  have hyn : y ≠ n := by
    rintro rfl
    exact hnx hy
  have hyrs : y ∉ rs := fun hm => h.not_reaches_of_source (hs.source y hm) hx hnx hy
  rw [hs.parent, if_neg hyrs, if_neg hyn]

/-- What is not below the replaced node keeps the nodes above it. -/
theorem Exchanged.reaches (hs : Exchanged t t' n rs) (h : t.Consistent) {a : NodeRef} (hx : t.Has x)
    (hnx : ¬ t.Reaches n x) (ha : t'.Reaches a x) : t.Reaches a x :=
  reaches_of_parent_eq (fun _ hy => hs.parent_eq h hx hnx hy) ha

theorem Exchanged.children_eq (hs : Exchanged t t' n rs) (h : t.Consistent)
    (hn : t.parent n ≠ some x) (hnx : ¬ t.Reaches n x) : t'.children x = t.children x := by
  rw [hs.children, flatMap_substitute_eq_self]
  · exact fun hm => hn ((h.mem_children x n).mp hm)
  · intro c hc hm
    have hp := (h.mem_children x c).mp hc
    rcases hs.source c hm with hnot | ⟨hnc, hne⟩
    · exact hnot (has_of_parent hp)
    · rcases hnc.eq_or_parent with rfl | ⟨q, hq, hnq⟩
      · exact hne rfl
      · obtain rfl : x = q := Option.some.inj (hp.symm.trans hq)
        exact hnx hnq

/-- The view of what lies apart from the replaced node is the same as before. -/
theorem Exchanged.view_eq (hs : Exchanged t t' n rs) (h : t.Consistent) (hx : t.Has x)
    (hnx : ¬ t.Reaches n x) (hxn : ¬ t.Reaches x n) : t'.view x = t.view x := by
  refine h.view_congr hs.consistent fun y hy => ?_
  have hyhas := hy.has hx
  refine ⟨hs.kind y hyhas, hs.serial y hyhas, hs.children_eq h ?_ ?_⟩
  · exact fun hp => hxn (.child hy hp)
  · intro hny
    rcases hy.total hny with h | h
    · exact hxn h
    · exact hnx h

/-- No branch is a message or takes the place of one, so that blocks keep their branches. -/
theorem Spliced.children_of_cond (hs : Spliced t t' n rs) (h : t.Formed)
    (hk : t.level n = .message) (hp : t.parent n = some p) (hx : t.level x = .cond) :
    t'.children x = t.children x := by
  have hc := h.consistent
  have hbranch : ∀ c ∈ t.children x, t.level c = .branch := by
    intro c hm
    have := h.leveled.holds c x ((hc.mem_children x c).mp hm)
    rw [hx] at this
    simpa [Level.holds] using this
  have howns : (t.level p).ownsBody :=
    Level.ownsBody_of_holds_message (hk ▸ h.leveled.holds n p hp)
  rw [hs.children, flatMap_substitute_eq_self]
  · intro hm
    rw [hbranch n hm] at hk
    cases hk
  · intro c hm hrs
    have hchas := has_of_parent ((hc.mem_children x c).mp hm)
    have hphas := has_of_mem_children ((hc.mem_children p n).mpr hp)
    have hholds := hs.formed.leveled.holds c p (by rw [hs.parent, if_pos hrs, hp])
    rw [level, level, hs.kind p hphas, hs.kind c hchas, ← level, ← level, hbranch c hm] at hholds
    cases hl : t.level p <;> simp_all [Level.holds, Level.ownsBody, Level.isItem]

theorem Spliced.opened (hs : Spliced t t' n rs) (h : t.Formed) (hk : t.level n = .message)
    (hp : t.parent n = some p) (ho : t.Opened) : t'.Opened := by
  intro x c hx hhead
  have hc := h.consistent
  by_cases hhas : t.Has x
  · have hcond : t.level x = .cond := by rwa [level, ← hs.kind x hhas]
    rw [hs.children_of_cond h hk hp hcond] at hhead
    rw [hs.kind c (has_of_parent ((hc.mem_children x c).mp (List.mem_of_head? hhead)))]
    exact ho x c hcond hhead
  · have hnil : t.children x = [] :=
      List.eq_nil_iff_forall_not_mem.mpr fun d hd => hhas (has_of_mem_children hd)
    rw [hs.children, hnil] at hhead
    cases hhead

/-! ### Replacing a message -/

/-- The nodes of parts that become something are new or prints below the message. -/
theorem Consistent.exists_partNodes (hc : t.Consistent) (hp : t.parent n = some p) (key : String)
    {parts : List MessagePart} {ks : List NodeKind} (hks : (t.view n).partKinds parts = some ks) :
    ∃ t₁ rs, t.partNodes (t.view n) key [] parts = (.ok rs, t₁) ∧
      PartNodes t t₁ (t.view n) [] rs ks ∧ (∀ r ∈ rs, t₁.level r = .leaf) ∧
      ∀ r ∈ rs, ¬ t.Has r ∨ t.Reaches n r ∧ r ≠ n := by
  have hshows : Shows t (t.view n) := by
    intro w hw
    obtain ⟨y, hy, -, rfl⟩ := hc.mem_tail_nodes_view.mp hw
    rw [ref_view, kind_view]
    exact ⟨hy.has (has_of_parent hp), rfl⟩
  obtain ⟨t₁, rs, heq, hrs⟩ := partNodes_eq_ok t key hshows List.nodup_nil (by simp) hks
  rw [List.nil_append] at heq
  refine ⟨t₁, rs, heq, hrs, fun r hr => ?_, fun r hr => ?_⟩
  · refine View.level_of_mem_partKinds hks ?_
    rw [← hrs.kinds]
    exact List.mem_map_of_mem hr
  · rcases hrs.source r hr with hnot | ⟨w, hw, rfl⟩
    · exact .inl hnot
    · obtain ⟨y, hy, hne, rfl⟩ := hc.mem_tail_nodes_view.mp hw
      rw [ref_view]
      exact .inr ⟨hy, hne⟩

/-- The content of a message is below it. -/
theorem Consistent.below_of_mem_children (hc : t.Consistent) {c : NodeRef}
    (hm : c ∈ t.children n) : t.Has c ∧ t.Reaches n c ∧ c ≠ n := by
  have hp := (hc.mem_children n c).mp hm
  refine ⟨has_of_parent hp, .of_parent hp, ?_⟩
  rintro rfl
  exact hc.not_reaches_parent hp .refl

theorem Formed.spliced_translated (h : t.Formed) {key desc : String}
    (hk : t.kind n = .msg key desc) (hp : t.parent n = some p) {parts : List MessagePart}
    (htrans : bundle.bind (·.get? key) = some parts) {ks : List NodeKind}
    (hks : (t.view n).partKinds parts = some ks) :
    ∃ t' rs, t.insertMessage bundle n = (.ok (), t') ∧ Spliced t t' n rs ∧
      rs.map (fun r => (t'.view r).anonymous) = ks.map View.leaf := by
  obtain ⟨t₁, rs, heq, hrs, hleaf, hsource⟩ := h.consistent.exists_partNodes hp key hks
  obtain ⟨t', hreplace, hs⟩ := h.exists_replaceWith hrs.grown (by rw [level, hk]; rfl) hp
    (by simpa using hrs.nodup) hrs.has (fun r hr => by rw [hleaf r hr]; rfl) hsource
  have hnodes : SameNodes t₁ t' := by
    have := sameNodes_replaceWith t₁ n rs
    rwa [hreplace] at this
  refine ⟨t', rs, ?_, hs, ?_⟩
  · rw [insertMessage, hk]
    simp only [messageNodes, htrans, heq, hreplace]
    rfl
  · rw [← hrs.kinds, List.map_map]
    refine List.map_congr_left fun r hr => ?_
    have hlevel : t'.level r = .leaf := by rw [level, hnodes.kind]; exact hleaf r hr
    rw [hs.formed.consistent.view_eq r,
      hs.formed.leveled.children_eq_nil hs.formed.consistent hlevel, View.anonymous, hnodes.kind]
    rfl

theorem Formed.spliced_content (h : t.Formed) {key desc : String}
    (hk : t.kind n = .msg key desc) (hp : t.parent n = some p)
    (htrans : bundle.bind (·.get? key) = none) :
    ∃ t', t.insertMessage bundle n = (.ok (), t') ∧ Spliced t t' n (t.children n) ∧
      (t.children n).map t'.view = (t.children n).map t.view := by
  have hc := h.consistent
  have hmessage : t.level n = .message := by rw [level, hk]; rfl
  have hchild : ∀ c ∈ t.children n, t.parent c = some n := fun c hm => (hc.mem_children n c).mp hm
  obtain ⟨t', hreplace, hs⟩ := h.exists_replaceWith (.refl t) hmessage hp (hc.nodup_children n)
    (fun c hm => (hc.below_of_mem_children hm).1)
    (fun c hm => Level.isItem_of_holds (hmessage ▸ h.leveled.holds c n (hchild c hm)))
    (fun c hm => .inr (hc.below_of_mem_children hm).2)
  refine ⟨t', ?_, hs, List.map_congr_left fun c hm => ?_⟩
  · rw [insertMessage, hk]
    simp only [messageNodes, htrans, ref_view, hreplace]
    rfl
  · refine hc.view_congr hs.formed.consistent fun y hy => ?_
    have hyhas := hy.has (has_of_parent (hchild c hm))
    have hyn : ¬ t.Reaches y n := fun hyn => hc.not_reaches_parent (hchild c hm) (hy.trans hyn)
    refine ⟨hs.kind y hyhas, hs.serial y hyhas, ?_⟩
    rw [hs.children, flatMap_substitute_eq_self]
    · exact fun hmem => hyn (.of_parent ((hc.mem_children y n).mp hmem))
    · intro d hd hdn
      obtain rfl : n = y := Option.some.inj
        ((hchild d hdn).symm.trans ((hc.mem_children y d).mp hd))
      exact hyn .refl

theorem exists_of_isMessage {k : NodeKind} (h : k.isMessage) : ∃ key desc, k = .msg key desc := by
  cases k with
  | msg key desc => exact ⟨key, desc, rfl⟩
  | _ => cases h

theorem level_of_isMessage (h : (t.kind n).isMessage) : t.level n = .message := by
  obtain ⟨key, desc, hk⟩ := exists_of_isMessage h
  rw [level, hk]
  rfl

/-- A message whose placeholders refer to prints is replaced by what its localized view holds. -/
theorem Formed.insertMessage_eq_ok (h : t.Formed) (hk : (t.kind n).isMessage)
    (hp : t.parent n = some p) (hr : View.Resolves bundle (t.view n)) :
    ∃ t' rs, t.insertMessage bundle n = (.ok (), t') ∧ Spliced t t' n rs ∧
      rs.map (fun r => (t'.view r).anonymous) =
        (View.replacement bundle (t.view n)).map View.anonymous := by
  obtain ⟨key, desc, hk⟩ := exists_of_isMessage hk
  have htranslation : View.translation bundle (t.view n).kind = bundle.bind (·.get? key) := by
    rw [kind_view, hk]
    rfl
  cases htrans : bundle.bind (·.get? key) with
  | none =>
    obtain ⟨t', heq, hs, hview⟩ := h.spliced_content hk hp htrans
    refine ⟨t', t.children n, heq, hs, ?_⟩
    rw [View.replacement_of_none (htranslation.trans htrans), h.consistent.view_eq n]
    have := congrArg (List.map View.anonymous) hview
    rwa [List.map_map] at this
  | some parts =>
    obtain ⟨ks, hks⟩ := Option.isSome_iff_exists.mp (hr parts (htranslation.trans htrans))
    obtain ⟨t', rs, heq, hs, hview⟩ := h.spliced_translated hk hp htrans hks
    refine ⟨t', rs, heq, hs, ?_⟩
    rw [hview, View.replacement_of_some (htranslation.trans htrans), hks, Option.getD_some,
      List.map_map]
    exact List.map_congr_left fun k _ => (View.anonymous_leaf k).symm

/-- A message is not replaced when a placeholder refers to no print. -/
theorem insertMessage_eq_error (hk : (t.kind n).isMessage)
    (hr : ¬ View.Resolves bundle (t.view n)) :
    ∃ key name, UnknownPlaceholder t bundle n key name ∧ (t.insertMessage bundle n).1 =
      .error (.codeGeneration (t.serial n) (.unknownPlaceholder key name)) := by
  obtain ⟨key, desc, hk⟩ := exists_of_isMessage hk
  obtain ⟨parts, htrans, hnone⟩ : ∃ parts, bundle.bind (·.get? key) = some parts ∧
      (t.view n).partKinds parts = none := by
    unfold View.Resolves at hr
    rw [kind_view, hk] at hr
    push Not at hr
    obtain ⟨parts, htrans, hnone⟩ := hr
    exact ⟨parts, htrans, by simpa using hnone⟩
  obtain ⟨name, hmem, hnone, he⟩ := partNodes_eq_error t key [] hnone
  refine ⟨key, name, ⟨desc, parts, hk, htrans, hmem, hnone⟩, ?_⟩
  rw [insertMessage, hk]
  simp only [messageNodes, htrans]
  generalize t.partNodes (t.view n) key [] parts = result at he
  obtain ⟨r, t₁⟩ := result
  rw [serial_view] at he
  obtain rfl : r = _ := he
  rfl

end Tree

end TemplateLang
