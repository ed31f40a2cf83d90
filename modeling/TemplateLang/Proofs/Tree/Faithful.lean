import TemplateLang.Proofs.Name.Definitions
import TemplateLang.Proofs.Tree.Copies

/-! Loading is faithful. It makes the nodes of a description in order of the source, each behind
the nodes of what came before, until it meets a conditional block without a branch; then it stops
and names the parent. Up to there every operation on the tree succeeds, since each new node is put
below a container. -/

namespace TemplateLang

namespace Tree

variable {t t' : Tree} {p : NodeRef} {fresh : ℕ}

/-- What loading comes to: the tree, unless a conditional block without a branch was found. -/
def checked (found : Option (View × View)) (t : Tree) : Except TreeError Tree :=
  match found with
  | none => .ok t
  | some (parent, _) => .error ⟨parent.serial, .noBranch⟩

/-- The first conditional block without a branch in a list of views below `parent`. -/
def firstBareIn (parent : View) (vs : List View) : Option (View × View) :=
  (View.listOffspring parent vs).find? fun e => e.2.lacksBranch

theorem checked_or (a b : Option (View × View)) (t₁ t : Tree) :
    checked (a.or b) t = checked a t₁ >>= fun _ => checked b t := by
  cases a <;> rfl

theorem firstBareIn_append (parent : View) (vs ws : List View) :
    firstBareIn parent (vs ++ ws) = (firstBareIn parent vs).or (firstBareIn parent ws) := by
  rw [firstBareIn, View.listOffspring_eq_flatMap, List.flatMap_append, List.find?_append,
    firstBareIn, firstBareIn, View.listOffspring_eq_flatMap, View.listOffspring_eq_flatMap]

theorem firstBareIn_singleton (parent : View) {v : View} (h : v.lacksBranch = false) :
    firstBareIn parent [v] = firstBareIn v v.children := by
  cases v
  simp [firstBareIn, View.listOffspring, View.offspring, h, View.children]

theorem firstBareIn_of_lacksBranch (parent : View) {v : View} (h : v.lacksBranch = true) :
    firstBareIn parent [v] = some (parent, v) := by
  rw [firstBareIn, View.listOffspring, List.find?_cons, h]

theorem lacksBranch_cons (b : Branch) (bs : List Branch) (last : List View) :
    (View.node root 0 .cond (Branch.toViews (b :: bs) ++ last)).lacksBranch = false := by
  cases b
  rfl

theorem firstBareIn_children (v : View) : firstBareIn v v.children = v.firstBare := by
  cases v
  rfl

theorem addCopies_singleton (t : Tree) (p : NodeRef) (v : View) :
    t.addCopies p [v] = t.addCopy p v := by rw [addCopies, addCopies]

/-! ### One node, and nodes behind each other -/

/-- Making a node is the first step of copying it, what comes below it is the rest. -/
theorem Unbroken.added_bind (h : t.Unbroken fresh) (hp : (t.kind p).isContainer) (parent : View)
    {kind : NodeKind} {children : List View} {f : NodeRef × Tree → Except TreeError Tree}
    (hlacks : (View.node root 0 kind children).lacksBranch = false)
    (hf : ∀ {t₁ : Tree} {n : NodeRef} {v : View}, t₁.Unbroken fresh → t₁.kind n = kind →
      t₁.Has n → v.serial = t₁.serial n → f (n, t₁) =
        checked (firstBareIn v (View.numberedList fresh t₁.nodes.size children))
          (t₁.addCopies n children)) :
    t.added p kind >>= f =
      checked (firstBareIn parent [(View.node root 0 kind children).numbered fresh t.nodes.size])
        (t.addCopy p (.node root 0 kind children)) := by
  have hhas := has_of_isContainer hp
  have hkind : (t.grown p kind).kind ⟨t.nodes.size⟩ = kind := by rw [kind_grown, if_pos rfl]
  have hserial : (t.grown p kind).serial ⟨t.nodes.size⟩ = fresh + t.nodes.size := by
    rw [serial_grown, if_pos rfl, h.next]
  have hbelow := hf (v := (View.node root 0 kind children).numbered fresh t.nodes.size)
    (h.grown hhas kind) hkind (has_grown_iff.mpr (.inr rfl)) hserial.symm
  rw [h.consistent.added_eq hp, ok_bind, hbelow, firstBareIn_singleton _
    ((View.lacksBranch_numbered ..).trans hlacks), addCopy, addUnchecked_eq, size_grown,
    View.numbered_node]
  rfl

/-- Steps one behind the other copy what both copy. -/
theorem Unbroken.bind_copies (h : t.Unbroken fresh) (hp : t.Has p) {parent : View}
    (hparent : parent.serial = t.serial p) (vs : List View) {ws : List View}
    {r : Except TreeError Tree} {f : Tree → Except TreeError Tree}
    (hr : r = checked (firstBareIn parent (View.numberedList fresh t.nodes.size vs))
      (t.addCopies p vs))
    (hf : ∀ {t₁ : Tree}, t₁.Unbroken fresh → t₁.kind p = t.kind p → t₁.Has p →
      parent.serial = t₁.serial p → f t₁ =
        checked (firstBareIn parent (View.numberedList fresh t₁.nodes.size ws))
          (t₁.addCopies p ws)) :
    r >>= f = checked (firstBareIn parent (View.numberedList fresh t.nodes.size (vs ++ ws)))
      (t.addCopies p (vs ++ ws)) := by
  have hcopies := h.copied_addCopies vs hp
  have hrest := hf hcopies.unbroken (hcopies.kind p hp) (hcopies.has hp)
    (hparent.trans (hcopies.serial p hp).symm)
  rw [View.numberedList_append, firstBareIn_append, addCopies_append, checked_or _ _
    (t.addCopies p vs), ← hcopies.size, ← hrest, hr]
  cases firstBareIn parent (View.numberedList fresh t.nodes.size vs) with
  | none => rfl
  | some e => rfl

/-- The same for a list of steps. -/
theorem Unbroken.foldlM_eq {α : Type} {f : Tree → α → Except TreeError Tree} {g : α → View}
    (parent : View) {kind : NodeKind}
    (hf : ∀ {t : Tree} (a : α), t.Unbroken fresh → t.kind p = kind → t.Has p →
      parent.serial = t.serial p → f t a =
        checked (firstBareIn parent [(g a).numbered fresh t.nodes.size]) (t.addCopy p (g a)))
    (as : List α) (h : t.Unbroken fresh) (hkind : t.kind p = kind) (hp : t.Has p)
    (hparent : parent.serial = t.serial p) :
    as.foldlM f t =
      checked (firstBareIn parent (View.numberedList fresh t.nodes.size (as.map g)))
        (t.addCopies p (as.map g)) := by
  induction as generalizing t with
  | nil =>
    rw [List.map_nil, View.numberedList, addCopies]
    rfl
  | cons a as ih =>
    rw [List.foldlM_cons, List.map_cons]
    refine h.bind_copies hp hparent [g a] ?_ fun h₁ hkind₁ hp₁ hparent₁ =>
      ih h₁ (hkind₁.trans hkind) hp₁ hparent₁
    rw [addCopies_singleton]
    exact hf a h hkind hp hparent

/-! ### Items -/

theorem Unbroken.addedLeaf_eq (h : t.Unbroken fresh) (hp : (t.kind p).isContainer) (parent : View)
    {kind : NodeKind} (hkind : kind ≠ .cond) :
    t.addedLeaf p kind = checked (firstBareIn parent [(View.leaf kind).numbered fresh t.nodes.size])
      (t.addCopy p (.leaf kind)) := by
  have hlacks : (View.node root 0 kind []).lacksBranch = false := by
    cases kind with
    | cond => exact absurd rfl hkind
    | _ => rfl
  have hbind := h.added_bind hp parent (f := fun e => .ok e.2) hlacks
    fun {t₁ n v} _ _ _ _ => by
      rw [View.numberedList, addCopies]
      rfl
  rw [View.leaf, ← hbind, addedLeaf]
  cases t.added p kind <;> rfl

mutual

theorem addItem_eq (fresh : ℕ) : ∀ (item : Item) {t : Tree} {p : NodeRef} {parent : View},
    t.Unbroken fresh → (t.kind p).isContainer → parent.serial = t.serial p →
    t.addItem p item =
      checked (firstBareIn parent [item.toView.numbered fresh t.nodes.size])
        (t.addCopy p item.toView)
  | .text content, t, p, parent, h, hp, _ => by
    rw [addItem, Item.toView]
    exact h.addedLeaf_eq hp parent (by simp)
  | .print expr directives escape, t, p, parent, h, hp, _ => by
    rw [addItem, Item.toView]
    exact h.addedLeaf_eq hp parent (by simp)
  | .call callee passesData, t, p, parent, h, hp, _ => by
    rw [addItem, Item.toView]
    exact h.addedLeaf_eq hp parent (by simp)
  | .msg key desc body, t, p, parent, h, hp, _ => by
    rw [addItem, Item.toView]
    exact h.added_bind hp parent rfl fun h₁ hk _ hv =>
      addItems_eq fresh body h₁ (by rw [hk]; rfl) hv
  | .cond [] none, t, p, parent, h, hp, hparent => by
    rw [addItem, Item.toView, firstBareIn_of_lacksBranch _ (View.lacksBranch_numbered ..), checked,
      hparent]
    rfl
  | .cond [] (some body), t, p, parent, h, hp, hparent => by
    rw [addItem, Item.toView, firstBareIn_of_lacksBranch _ (View.lacksBranch_numbered ..), checked,
      hparent]
    rfl
  | .cond (b :: bs) none, t, p, parent, h, hp, _ => by
    rw [addItem, Item.toView]
    have hlacks := lacksBranch_cons b bs []
    rw [List.append_nil] at hlacks
    refine h.added_bind hp parent hlacks fun h₁ hk _ hv => ?_
    rw [← addBranches_eq fresh (b :: bs) h₁ (by rw [hk]; rfl) hv]
    exact bind_pure _
  | .cond (b :: bs) (some body), t, p, parent, h, hp, _ => by
    rw [addItem, Item.toView]
    refine h.added_bind hp parent (lacksBranch_cons b bs _) fun h₁ hk hn hv => ?_
    have hbranches := addBranches_eq fresh (b :: bs) h₁ (by rw [hk]; rfl) hv
    refine h₁.bind_copies hn hv _ hbranches fun h₂ hk₂ hn₂ hv₂ => ?_
    rw [addCopies_singleton]
    exact h₂.added_bind (by rw [hk₂, hk]; rfl) _ rfl fun h₃ hk₃ _ hv₃ =>
      addItems_eq fresh body h₃ (by rw [hk₃]; rfl) hv₃

theorem addItems_eq (fresh : ℕ) : ∀ (items : List Item) {t : Tree} {p : NodeRef} {parent : View},
    t.Unbroken fresh → (t.kind p).isContainer → parent.serial = t.serial p →
    t.addItems p items =
      checked (firstBareIn parent (View.numberedList fresh t.nodes.size (Item.toViews items)))
        (t.addCopies p (Item.toViews items))
  | [], t, p, parent, _, _, _ => by
    rw [addItems, Item.toViews, View.numberedList, addCopies]
    rfl
  | item :: rest, t, p, parent, h, hp, hparent => by
    rw [addItems, Item.toViews]
    refine h.bind_copies (has_of_isContainer hp) hparent [item.toView] ?_
      fun h₁ hk _ hparent₁ => addItems_eq fresh rest h₁ (by rwa [hk]) hparent₁
    rw [addCopies_singleton]
    exact addItem_eq fresh item h hp hparent

theorem addBranches_eq (fresh : ℕ) : ∀ (branches : List Branch) {t : Tree} {p : NodeRef}
    {parent : View}, t.Unbroken fresh → (t.kind p).isContainer → parent.serial = t.serial p →
    t.addBranches p branches =
      checked (firstBareIn parent (View.numberedList fresh t.nodes.size (Branch.toViews branches)))
        (t.addCopies p (Branch.toViews branches))
  | [], t, p, parent, _, _, _ => by
    rw [addBranches, Branch.toViews, View.numberedList, addCopies]
    rfl
  | .mk condition body :: rest, t, p, parent, h, hp, hparent => by
    rw [addBranches, Branch.toViews, addBranch]
    refine h.bind_copies (has_of_isContainer hp) hparent
      [.node root 0 (.branch condition) (Item.toViews body)] ?_
      fun h₁ hk _ hparent₁ => addBranches_eq fresh rest h₁ (by rwa [hk]) hparent₁
    rw [addCopies_singleton]
    exact h.added_bind hp parent rfl fun h₁ hk _ hv =>
      addItems_eq fresh body h₁ (by rw [hk]; rfl) hv

end

/-! ### File sets -/

theorem addTemplate_eq (d : TemplateDescription) {parent : View} (h : t.Unbroken fresh)
    (hp : (t.kind p).isContainer) :
    t.addTemplate p d = checked (firstBareIn parent [d.toView.numbered fresh t.nodes.size])
      (t.addCopy p d.toView) := by
  rw [addTemplate, TemplateDescription.toView]
  exact h.added_bind hp parent rfl fun h₁ hk _ hv =>
    addItems_eq fresh d.body h₁ (by rw [hk]; rfl) hv

theorem addFile_eq (d : FileDescription) {parent : View} (h : t.Unbroken fresh)
    (hroot : t.kind root = .fileSet) :
    t.addFile d = checked (firstBareIn parent [d.toView.numbered fresh t.nodes.size])
      (t.addCopy root d.toView) := by
  rw [addFile, FileDescription.toView]
  refine h.added_bind (by rw [hroot]; rfl) parent rfl fun h₁ hk hn hv => ?_
  exact Unbroken.foldlM_eq _
    (fun d h₂ hk₂ _ _ => addTemplate_eq d h₂ (by rw [hk₂]; rfl)) d.templates h₁ hk hn hv

/-- Loading a description makes its view, numbered from the root on, if every conditional block
has a branch. -/
theorem ofDescription_eq (fresh : ℕ) (d : FileSetDescription) :
    ofDescription fresh d = checked (d.toView.numbered fresh 0).firstBare
      ((new fresh).addCopies root (d.files.map FileDescription.toView)) := by
  have h := unbroken_new fresh
  rw [ofDescription, ← firstBareIn_children]
  exact Unbroken.foldlM_eq (d.toView.numbered fresh 0)
    (fun d h₁ hk _ _ => addFile_eq d h₁ hk) d.files h rfl h.consistent.has_root rfl

theorem load_eq {text : String} {d : FileSetDescription}
    (hd : FileSetDescription.ofText? text = some d) :
    Tree.load fresh text = (ofDescription fresh d).mapError .refused := by
  rw [Tree.load, hd]

theorem firstBare_numbered_eq_none_iff (fresh : ℕ) (d : FileSetDescription) :
    (d.toView.numbered fresh 0).firstBare = none ↔ d.isBranched := by
  rw [View.firstBare_eq_none_iff (View.lacksBranch_numbered ..), View.isBranched_numbered,
    View.isBranched_fileSet]

/-- A loaded tree shows its description, in which every conditional block has a branch. -/
theorem of_load {text : String} (ht : Tree.load fresh text = .ok t) :
    ∃ d, FileSetDescription.ofText? text = some d ∧ d.isBranched ∧
      t.view root = d.toView.numbered fresh 0 := by
  cases hd : FileSetDescription.ofText? text with
  | none =>
    rw [Tree.load, hd] at ht
    cases ht
  | some d =>
    rw [load_eq hd, ofDescription_eq] at ht
    cases hfound : (d.toView.numbered fresh 0).firstBare with
    | some e =>
      rw [hfound] at ht
      cases ht
    | none =>
      rw [hfound] at ht
      obtain rfl := Except.ok.inj ht
      exact ⟨d, rfl, (firstBare_numbered_eq_none_iff fresh d).mp hfound,
        view_addCopies_new fresh (d.files.map FileDescription.toView)⟩

/-- Loading succeeds exactly when every conditional block of the description has a branch. The
tree then shows the description, node by node in order of the source, and is read back as it;
else the error names the parent of the first conditional block without a branch. -/
theorem load_faithful {fresh : ℕ} {text : String} {d : FileSetDescription}
    (hd : FileSetDescription.ofText? text = some d) :
    ((∃ t, Tree.load fresh text = .ok t) ↔ d.isBranched) ∧
    (∀ t, Tree.load fresh text = .ok t →
      t.view root = d.toView.numbered fresh 0 ∧ t.description? = some d) ∧
    (d.isBranched = false →
      ∃ parent ∈ (d.toView.numbered fresh 0).nodes, ∃ block ∈ parent.children,
        (d.toView.numbered fresh 0).nodes.find? View.lacksBranch = some block ∧
        Tree.load fresh text = .error (.refused ⟨parent.serial, .noBranch⟩)) := by
  have hnone := firstBare_numbered_eq_none_iff fresh d
  have hload : Tree.load fresh text = (checked (d.toView.numbered fresh 0).firstBare
      ((new fresh).addCopies root (d.files.map FileDescription.toView))).mapError .refused := by
    rw [load_eq hd, ofDescription_eq]
  refine ⟨⟨?_, fun hb => ?_⟩, fun t ht => ?_, fun hb => ?_⟩
  · rintro ⟨t, ht⟩
    obtain ⟨d', hd', hb, -⟩ := of_load ht
    obtain rfl : d = d' := Option.some.inj (hd.symm.trans hd')
    exact hb
  · rw [hload, hnone.mpr hb]
    exact ⟨_, rfl⟩
  · obtain ⟨d', hd', -, hview⟩ := of_load ht
    obtain rfl : d = d' := Option.some.inj (hd.symm.trans hd')
    refine ⟨hview, ?_⟩
    rw [description?, hview]
    exact View.fileSet?_toView fresh d 0
  · cases hfound : (d.toView.numbered fresh 0).firstBare with
    | none =>
      rw [hnone.mp hfound] at hb
      cases hb
    | some e =>
      obtain ⟨parent, block⟩ := e
      obtain ⟨hparent, hblock, hfirst⟩ :=
        View.find?_of_firstBare (View.lacksBranch_numbered ..) hfound
      refine ⟨parent, hparent, block, hblock, hfirst, ?_⟩
      rw [hload, hfound]
      rfl

/-- A message with a conditional block that has a last branch, but no other. -/
def bareText : String :=
  "[[[\"a.tmpl\",\"app\",[[\".a\",false,true,[[\"text\",\"A\"]," ++
    "[\"msg\",\"key\",\"\",[[\"text\",\"B\"],[\"if\",[],[]]]]]]]]]]"

/-- A page is loaded and read back, and the message around the bare block is named. -/
theorem load_faithful_page_bare :
    (∃ d, FileSetDescription.ofText? pageText = some d ∧ page.description? = some d) ∧
      ∃ d, FileSetDescription.ofText? bareText = some d ∧
        ∃ parent ∈ (d.toView.numbered 0 0).nodes, ∃ block ∈ parent.children,
          (d.toView.numbered 0 0).nodes.find? View.lacksBranch = some block ∧
          Tree.load 0 bareText = .error (.refused ⟨parent.serial, .noBranch⟩) := by
  constructor
  · obtain ⟨d, hd⟩ : ∃ d, FileSetDescription.ofText? pageText = some d := by
      cases hd : FileSetDescription.ofText? pageText with
      | some d => exact ⟨d, rfl⟩
      | none =>
        have hload := load_pageText
        rw [Tree.load, hd] at hload
        cases hload
    exact ⟨d, hd, ((load_faithful hd).2.1 page load_pageText).2⟩
  · have hbare : (FileSetDescription.ofText? bareText).map (·.isBranched) = some false := by
      decide +kernel
    obtain ⟨d, hd, hbranched⟩ := Option.map_eq_some_iff.mp hbare
    exact ⟨d, hd, (@load_faithful 0 bareText d hd).2.2 hbranched⟩

end Tree

end TemplateLang
