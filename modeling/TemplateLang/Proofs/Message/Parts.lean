import TemplateLang.Proofs.Message.Localize
import TemplateLang.Proofs.Message.Prints
import TemplateLang.Proofs.Tree.Loaded

/-! The nodes that the parts of a localized message become. They are new, or prints of the message
that no earlier part took, so no node stands for two parts; and they are found exactly when
every placeholder refers to a print. -/

namespace TemplateLang.Tree

variable {t t' t'' : Tree} {n p r x : NodeRef} {msg : View} {key : String}
  {before : List NodeRef} {parts : List MessagePart}

/-- The second tree has new nodes that belong to no other, and the nodes of the first as they
were. -/
structure Grown (t t' : Tree) : Prop where
  has : ∀ x, t.Has x → t'.Has x
  kind : ∀ x, t.Has x → t'.kind x = t.kind x
  serial : ∀ x, t.Has x → t'.serial x = t.serial x
  parent : ∀ x, t'.parent x = t.parent x
  children : ∀ x, t'.children x = t.children x

theorem Grown.refl (t : Tree) : Grown t t :=
  ⟨fun _ => id, fun _ _ => rfl, fun _ _ => rfl, fun _ => rfl, fun _ => rfl⟩

theorem Grown.trans (h : Grown t t') (h' : Grown t' t'') : Grown t t'' where
  has x hx := h'.has x (h.has x hx)
  kind x hx := (h'.kind x (h.has x hx)).trans (h.kind x hx)
  serial x hx := (h'.serial x (h.has x hx)).trans (h.serial x hx)
  parent x := (h'.parent x).trans (h.parent x)
  children x := (h'.children x).trans (h.children x)

theorem grown_create (t : Tree) (k : NodeKind) : Grown t (t.create k).2 where
  has x hx := hx.create k
  kind x hx := by rw [kind_create, if_neg hx.ne_size]
  serial x hx := by rw [serial_create, if_neg hx.ne_size]
  parent := parent_create t k
  children := children_create t k

theorem Grown.consistent (h : Grown t t') (ht : t.Consistent) : t'.Consistent where
  mem_children p c := by rw [h.children, h.parent, ht.mem_children]
  nodup_children p := by rw [h.children]; exact ht.nodup_children p
  has_root := h.has root ht.has_root
  root_parent := by rw [h.parent, ht.root_parent]
  acyclic := by
    obtain ⟨rank, hrank⟩ := ht.acyclic
    exact ⟨rank, fun n p hp => hrank n p (h.parent n ▸ hp)⟩

theorem Grown.reaches (h : Grown t t') (hx : t'.Reaches n x) : t.Reaches n x :=
  reaches_of_parent_eq (fun y _ => h.parent y) hx

/-- The prints that placeholders refer to are nodes of the arena. -/
def Shows (t : Tree) (msg : View) : Prop :=
  ∀ w ∈ msg.nodes.tail, t.Has w.ref ∧ t.kind w.ref = w.kind

theorem Shows.grown (h : Shows t msg) (hg : Grown t t') : Shows t' msg := fun w hw =>
  ⟨hg.has _ (h w hw).1, (hg.kind _ (h w hw).1).trans (h w hw).2⟩

/-! ### Nodes of parts -/

/-- A placeholder in the parts that the bundle has for the message `n` refers to no print. -/
def UnknownPlaceholder (t : Tree) (bundle : Option Bundle) (n : NodeRef) (key name : String) :
    Prop :=
  ∃ desc parts, t.kind n = .msg key desc ∧ bundle.bind (·.get? key) = some parts ∧
    .placeholder name ∈ parts ∧ (t.view n).placeholder? name = none

/-- The first placeholder that refers to no print is the one that the error names. -/
theorem partNodes_eq_error (t : Tree) (key : String) (before : List NodeRef)
    (h : msg.partKinds parts = none) :
    ∃ name, .placeholder name ∈ parts ∧ msg.placeholder? name = none ∧
      (t.partNodes msg key before parts).1 =
        .error (.codeGeneration msg.serial (.unknownPlaceholder key name)) := by
  induction parts generalizing t before with
  | nil => cases h
  | cons part parts ih =>
    have hlater : msg.partKinds parts = none → ∀ t before,
        ∃ name, .placeholder name ∈ part :: parts ∧ msg.placeholder? name = none ∧
          (Tree.partNodes t msg key before parts).1 =
            .error (.codeGeneration msg.serial (.unknownPlaceholder key name)) := by
      intro hrest t before
      obtain ⟨name, hmem, hnone, he⟩ := ih t before hrest
      exact ⟨name, List.mem_cons_of_mem _ hmem, hnone, he⟩
    have hcases := View.partKinds_cons_eq_none_iff.mp h
    cases part with
    | text content =>
      rw [partNodes]
      exact hlater (hcases.resolve_left (by simp [View.partKind])) _ _
    | placeholder name =>
      rw [partNodes]
      cases hw : msg.placeholder? name with
      | none => exact ⟨name, List.mem_cons_self .., hw, rfl⟩
      | some w =>
        have hrest := hcases.resolve_left (by simp [View.partKind, hw])
        simp only
        split_ifs
        · exact hlater hrest _ _
        · exact hlater hrest _ _

/-- Whether or not all parts become nodes, the tree only gets new nodes. -/
theorem grown_partNodes (t : Tree) (msg : View) (key : String) (before : List NodeRef)
    (parts : List MessagePart) : Grown t (t.partNodes msg key before parts).2 := by
  induction parts generalizing t before with
  | nil => exact .refl t
  | cons part parts ih =>
    cases part with
    | text content =>
      rw [partNodes]
      exact (grown_create t _).trans (ih ..)
    | placeholder name =>
      rw [partNodes]
      cases msg.placeholder? name with
      | none => exact .refl t
      | some w =>
        simp only
        split_ifs
        · exact (grown_create t _).trans (ih ..)
        · exact ih ..

/-- What is known of the nodes that parts become. -/
structure PartNodes (t t' : Tree) (msg : View) (before rs : List NodeRef) (ks : List NodeKind) :
    Prop where
  grown : Grown t t'
  kinds : rs.map t'.kind = ks
  nodup : (before ++ rs).Nodup
  has : ∀ r ∈ rs, t'.Has r
  source : ∀ r ∈ rs, ¬ t.Has r ∨ ∃ w ∈ msg.nodes.tail, r = w.ref

/-- A part takes a node of its kind, after which the rest is as in a tree that has grown. -/
theorem PartNodes.cons {t₁ : Tree} {r : NodeRef} {k : NodeKind} {ks : List NodeKind}
    (h : PartNodes t₁ t' msg (before ++ [r]) rs ks) (hg : Grown t t₁) (hr : t₁.Has r)
    (hk : t₁.kind r = k) (hsource : ¬ t.Has r ∨ ∃ w ∈ msg.nodes.tail, r = w.ref) :
    PartNodes t t' msg before (r :: rs) (k :: ks) where
  grown := hg.trans h.grown
  kinds := by rw [List.map_cons, h.kinds, h.grown.kind r hr, hk]
  nodup := by
    have := h.nodup
    rwa [List.append_assoc, List.singleton_append] at this
  has := List.forall_mem_cons.mpr ⟨h.grown.has r hr, h.has⟩
  source := by
    refine List.forall_mem_cons.mpr ⟨hsource, fun s hs => ?_⟩
    rcases h.source s hs with hs | hs
    · exact .inl fun hs' => hs (hg.has s hs')
    · exact .inr hs

theorem partNodes_eq_ok (t : Tree) (key : String) {ks : List NodeKind}
    (hshows : Shows t msg) (hbefore : before.Nodup) (hhas : ∀ r ∈ before, t.Has r)
    (h : msg.partKinds parts = some ks) :
    ∃ t' rs, t.partNodes msg key before parts = (.ok (before ++ rs), t') ∧
      PartNodes t t' msg before rs ks := by
  induction parts generalizing t before ks with
  | nil =>
    obtain rfl := Option.some.inj h
    refine ⟨t, [], by rw [partNodes, List.append_nil], .refl t, rfl, by simpa using hbefore, ?_, ?_⟩
    · simp
    · simp
  | cons part parts ih =>
    obtain ⟨k, hk, ks', hks, rfl⟩ : ∃ k, msg.partKind part = some k ∧
        ∃ ks', msg.partKinds parts = some ks' ∧ k :: ks' = ks := by
      simpa [View.partKinds, Option.bind_eq_some_iff] using h
    have hnew : ∀ t₁ r, Grown t t₁ → t₁.Has r → t₁.kind r = k → r ∉ before →
        (¬ t.Has r ∨ ∃ w ∈ msg.nodes.tail, r = w.ref) →
        ∃ t' rs, t₁.partNodes msg key (before ++ [r]) parts = (.ok (before ++ rs), t') ∧
          PartNodes t t' msg before rs (k :: ks') := by
      intro t₁ r hg hr hkr hnot hsource
      have hhas₁ : ∀ s ∈ before ++ [r], t₁.Has s := by
        intro s hs
        rcases List.mem_append.mp hs with hs | hs
        · exact hg.has s (hhas s hs)
        · rwa [List.mem_singleton.mp hs]
      have hbefore₁ : (before ++ [r]).Nodup := List.concat_eq_append ▸ hbefore.concat hnot
      obtain ⟨t', rs, heq, hrs⟩ := ih t₁ (hshows.grown hg) hbefore₁ hhas₁ hks
      refine ⟨t', r :: rs, ?_, hrs.cons hg hr hkr hsource⟩
      rw [heq, List.append_assoc, List.singleton_append]
    have hcreate := hnew (t.create k).2 ⟨t.nodes.size⟩ (grown_create t k)
      (has_create_iff.mpr (.inr rfl)) (by rw [kind_create, if_pos rfl])
      (fun hm => (hhas _ hm).ne_size rfl) (.inl fun hs => hs.ne_size rfl)
    cases part with
    | text content =>
      obtain rfl : .text content = k := Option.some.inj hk
      rw [partNodes]
      exact hcreate
    | placeholder name =>
      obtain ⟨w, hw, rfl⟩ := Option.map_eq_some_iff.mp hk
      obtain ⟨hmem, -⟩ := View.isPrint_of_placeholder? hw
      rw [partNodes, hw]
      simp only
      split_ifs with hbefore₁
      · exact hcreate
      · have hnot : w.ref ∉ before := by simpa using hbefore₁
        exact hnew t w.ref (.refl t) (hshows w hmem).1 (hshows w hmem).2 hnot (.inr ⟨w, hmem, rfl⟩)

end TemplateLang.Tree
