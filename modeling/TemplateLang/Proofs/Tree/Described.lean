import TemplateLang.Proofs.Message.Localize
import TemplateLang.Proofs.Tree.Levels
import TemplateLang.Tree.Description

/-! Descriptions as views, and views read back as descriptions. A view is numbered when its nodes
have handles and serial numbers in order of the source. The reader looks at every node and takes
nothing else for a description: leaves have no children, a conditional block is its branches with
at most one node behind them, and that node is there exactly when the description has a last
branch, be it empty. -/

namespace TemplateLang

/-! ### Conditional blocks without a branch -/

mutual

/-- Whether every conditional block of an item has a branch. -/
def Item.isBranched : Item → Bool
  | .cond branches none => !branches.isEmpty && Branch.allBranched branches
  | .cond branches (some body) =>
    !branches.isEmpty && Branch.allBranched branches && Item.allBranched body
  | .msg _ _ body => Item.allBranched body
  | _ => true

def Item.allBranched : List Item → Bool
  | [] => true
  | item :: rest => item.isBranched && Item.allBranched rest

def Branch.allBranched : List Branch → Bool
  | [] => true
  | .mk _ body :: rest => Item.allBranched body && Branch.allBranched rest

end

/-- Whether every conditional block of a file set has a branch. -/
def FileSetDescription.isBranched (d : FileSetDescription) : Bool :=
  d.files.all fun file => file.templates.all fun template => Item.allBranched template.body

/-! ### Descriptions as views -/

mutual

def Item.toView : Item → View
  | .text content => .leaf (.text content)
  | .print expr directives escape => .leaf (.print expr directives escape)
  | .cond branches none => .node Tree.root 0 .cond (Branch.toViews branches)
  | .cond branches (some body) =>
    .node Tree.root 0 .cond
      (Branch.toViews branches ++ [.node Tree.root 0 .otherwise (Item.toViews body)])
  | .msg key desc body => .node Tree.root 0 (.msg key desc) (Item.toViews body)
  | .call callee passesData => .leaf (.call callee passesData)

def Item.toViews : List Item → List View
  | [] => []
  | item :: rest => item.toView :: Item.toViews rest

def Branch.toViews : List Branch → List View
  | [] => []
  | .mk condition body :: rest =>
    .node Tree.root 0 (.branch condition) (Item.toViews body) :: Branch.toViews rest

end

def TemplateDescription.toView (d : TemplateDescription) : View :=
  .node Tree.root 0 (.template d.name d.isOverride d.autoescape) (Item.toViews d.body)

def FileDescription.toView (d : FileDescription) : View :=
  .node Tree.root 0 (.file d.path d.ns) (d.templates.map TemplateDescription.toView)

def FileSetDescription.toView (d : FileSetDescription) : View :=
  .node Tree.root 0 .fileSet (d.files.map FileDescription.toView)

namespace View

/-! ### Views read back -/

mutual

/-- The item that a view shows, if it shows one. -/
def item? : View → Option Item
  | .node _ _ (.text content) [] => some (.text content)
  | .node _ _ (.print expr directives escape) [] => some (.print expr directives escape)
  | .node _ _ (.call callee passesData) [] => some (.call callee passesData)
  | .node _ _ .cond children =>
    (block? children).map fun (branches, otherwise) => .cond branches otherwise
  | .node _ _ (.msg key desc) children => (items? children).map (.msg key desc)
  | _ => none

def items? : List View → Option (List Item)
  | [] => some []
  | v :: rest => do
    let item ← item? v
    let items ← items? rest
    return item :: items

/-- The branches that the children of a conditional block show, and the last branch. -/
def block? : List View → Option (List Branch × Option (List Item))
  | [] => some ([], none)
  | .node _ _ (.branch condition) children :: rest => do
    let body ← items? children
    let (branches, otherwise) ← block? rest
    return (.mk condition body :: branches, otherwise)
  | [.node _ _ .otherwise children] => (items? children).map fun body => ([], some body)
  | _ => none

end

def template? : View → Option TemplateDescription
  | .node _ _ (.template name isOverride autoescape) children =>
    (items? children).map (⟨name, isOverride, autoescape, ·⟩)
  | _ => none

def file? : View → Option FileDescription
  | .node _ _ (.file path ns) children => (children.mapM template?).map (⟨path, ns, ·⟩)
  | _ => none

def fileSet? : View → Option FileSetDescription
  | .node _ _ .fileSet children => (children.mapM file?).map (⟨·⟩)
  | _ => none

/-! ### Numbering -/

mutual

/-- A view whose nodes have handles from `i` on and serial numbers from `fresh + i` on, in order
of the source. -/
def numbered (fresh : ℕ) : ℕ → View → View
  | i, .node _ _ kind children => .node ⟨i⟩ (fresh + i) kind (numberedList fresh (i + 1) children)

def numberedList (fresh : ℕ) : ℕ → List View → List View
  | _, [] => []
  | i, v :: rest => numbered fresh i v :: numberedList fresh (i + v.nodes.length) rest

end

@[simp] theorem kind_numbered (fresh i : ℕ) (v : View) : (v.numbered fresh i).kind = v.kind := by
  cases v
  rw [numbered]
  rfl

theorem numbered_node (fresh i : ℕ) (ref : NodeRef) (serial : ℕ) (kind : NodeKind)
    (children : List View) :
    (View.node ref serial kind children).numbered fresh i =
      .node ⟨i⟩ (fresh + i) kind (numberedList fresh (i + 1) children) := by rw [numbered]

theorem numbered_leaf (fresh i : ℕ) (kind : NodeKind) :
    (leaf kind).numbered fresh i = .node ⟨i⟩ (fresh + i) kind [] := by
  rw [leaf, numbered_node, numberedList]

theorem numberedList_append (fresh i : ℕ) (vs ws : List View) :
    numberedList fresh i (vs ++ ws) =
      numberedList fresh i vs ++ numberedList fresh (i + (vs.flatMap nodes).length) ws := by
  induction vs generalizing i with
  | nil => rfl
  | cons v vs ih =>
    rw [List.cons_append, numberedList, numberedList, ih, List.cons_append, List.flatMap_cons,
      List.length_append, Nat.add_assoc]

mutual

theorem item?_toView (fresh : ℕ) : ∀ (item : Item) (i : ℕ),
    (item.toView.numbered fresh i).item? = some item
  | .text content, i => by rw [Item.toView, numbered_leaf, item?]
  | .print expr directives escape, i => by rw [Item.toView, numbered_leaf, item?]
  | .call callee passesData, i => by rw [Item.toView, numbered_leaf, item?]
  | .cond branches none, i => by
    have hblock := block?_toViews fresh none [] branches (i + 1) fun _ => by
      rw [numberedList, block?]
    rw [Item.toView, numbered_node, item?, ← List.append_nil (Branch.toViews branches), hblock]
    rfl
  | .cond branches (some body), i => by
    have hblock := block?_toViews fresh (some body)
      [.node Tree.root 0 .otherwise (Item.toViews body)] branches (i + 1) fun j => by
        rw [numberedList, numberedList, numbered_node, block?, items?_toViews fresh body]
        rfl
    rw [Item.toView, numbered_node, item?, hblock]
    rfl
  | .msg key desc body, i => by
    rw [Item.toView, numbered_node, item?, items?_toViews fresh body]
    rfl

theorem items?_toViews (fresh : ℕ) : ∀ (items : List Item) (i : ℕ),
    items? (numberedList fresh i (Item.toViews items)) = some items
  | [], i => by rw [Item.toViews, numberedList, items?]
  | item :: rest, i => by
    rw [Item.toViews, numberedList, items?, item?_toView fresh item, items?_toViews fresh rest]
    rfl

/-- Branches are read up to what stands behind them. -/
theorem block?_toViews (fresh : ℕ) (otherwise : Option (List Item)) (last : List View) :
    ∀ (branches : List Branch) (i : ℕ),
    (∀ j, block? (numberedList fresh j last) = some ([], otherwise)) →
    block? (numberedList fresh i (Branch.toViews branches ++ last)) = some (branches, otherwise)
  | [], i, hlast => hlast i
  | .mk condition body :: rest, i, hlast => by
    rw [Branch.toViews, List.cons_append, numberedList, numbered_node, block?,
      items?_toViews fresh body, block?_toViews fresh otherwise last rest _ hlast]
    rfl

end

/-- Reading a list of views back, each at its place. -/
theorem mapM_numberedList {α : Type} {f : View → Option α} {g : α → View} {fresh : ℕ}
    (hfg : ∀ a i, f ((g a).numbered fresh i) = some a) (as : List α) (i : ℕ) :
    (numberedList fresh i (as.map g)).mapM f = some as := by
  induction as generalizing i with
  | nil => rfl
  | cons a as ih =>
    rw [List.map_cons, numberedList, List.mapM_cons, hfg, ih]
    rfl

theorem template?_toView (fresh : ℕ) (d : TemplateDescription) (i : ℕ) :
    (d.toView.numbered fresh i).template? = some d := by
  rw [TemplateDescription.toView, numbered_node, template?, items?_toViews]
  rfl

theorem file?_toView (fresh : ℕ) (d : FileDescription) (i : ℕ) :
    (d.toView.numbered fresh i).file? = some d := by
  rw [FileDescription.toView, numbered_node, file?, mapM_numberedList (template?_toView fresh)]
  rfl

/-- A description laid out as a view is read back from it. -/
theorem fileSet?_toView (fresh : ℕ) (d : FileSetDescription) (i : ℕ) :
    (d.toView.numbered fresh i).fileSet? = some d := by
  rw [FileSetDescription.toView, numbered_node, fileSet?, mapM_numberedList (file?_toView fresh)]
  rfl

/-! ### Where a branch is missing -/

/-- Whether a node is a conditional block without a branch. -/
def lacksBranch : View → Bool
  | .node _ _ .cond children => children.all fun c => !c.kind.opensBlock
  | _ => false

mutual

/-- The nodes below a node in order of the source, each behind its parent. -/
def offspring : View → List (View × View)
  | .node ref serial kind children => listOffspring (.node ref serial kind children) children

def listOffspring (p : View) : List View → List (View × View)
  | [] => []
  | v :: rest => (p, v) :: (offspring v ++ listOffspring p rest)

end

/-- The first conditional block without a branch in order of the source, behind its parent. -/
def firstBare (v : View) : Option (View × View) := v.offspring.find? fun e => e.2.lacksBranch

/-- Whether every conditional block in a view has a branch. -/
def isBranched (v : View) : Bool := v.nodes.all fun w => !w.lacksBranch

theorem listOffspring_eq_flatMap (p : View) (vs : List View) :
    listOffspring p vs = vs.flatMap fun v => (p, v) :: v.offspring := by
  induction vs with
  | nil => rfl
  | cons v vs ih =>
    rw [listOffspring, ih, List.flatMap_cons]
    rfl

theorem nodes_eq_cons_offspring (v : View) : v.nodes = v :: v.offspring.map Prod.snd := by
  induction v using View.induction with
  | node ref serial kind children ih =>
    rw [nodes_node, offspring, listOffspring_eq_flatMap, List.map_flatMap]
    exact congrArg _ (List.flatMap_congr ih)

theorem of_mem_offspring {v p c : View} (h : (p, c) ∈ v.offspring) :
    p ∈ v.nodes ∧ c ∈ p.children := by
  induction v using View.induction with
  | node ref serial kind children ih =>
    rw [offspring, listOffspring_eq_flatMap] at h
    obtain ⟨w, hw, hmem⟩ := List.mem_flatMap.mp h
    rcases List.mem_cons.mp hmem with he | hbelow
    · obtain ⟨rfl, rfl⟩ := Prod.mk.inj he
      exact ⟨self_mem_nodes _, hw⟩
    · obtain ⟨hp, hc⟩ := ih w hw hbelow
      rw [nodes_node]
      exact ⟨List.mem_cons_of_mem _ (List.mem_flatMap.mpr ⟨w, hw, hp⟩), hc⟩

theorem isBranched_node (ref : NodeRef) (serial : ℕ) (kind : NodeKind) (children : List View) :
    (View.node ref serial kind children).isBranched =
      (!(View.node ref serial kind children).lacksBranch && children.all isBranched) := by
  rw [isBranched, nodes_node, List.all_cons, List.all_flatMap]
  rfl

theorem firstBare_eq_none_iff {v : View} (h : v.lacksBranch = false) :
    v.firstBare = none ↔ v.isBranched := by
  rw [firstBare, List.find?_eq_none, isBranched, nodes_eq_cons_offspring, List.all_cons, h,
    List.all_map]
  simp

/-- The node that is found is the first in order of the source, and it is found with its parent. -/
theorem find?_of_firstBare {v p c : View} (h : v.lacksBranch = false)
    (hfound : v.firstBare = some (p, c)) :
    p ∈ v.nodes ∧ c ∈ p.children ∧ v.nodes.find? lacksBranch = some c := by
  obtain ⟨hp, hc⟩ := of_mem_offspring (List.mem_of_find?_eq_some hfound)
  refine ⟨hp, hc, ?_⟩
  rw [nodes_eq_cons_offspring, List.find?_cons, h, List.find?_map]
  exact congrArg (Option.map Prod.snd) hfound

theorem lacksBranch_numbered (fresh i : ℕ) (v : View) :
    (v.numbered fresh i).lacksBranch = v.lacksBranch := by
  have hall : ∀ (vs : List View) (i : ℕ),
      (numberedList fresh i vs).all (fun c => !c.kind.opensBlock) =
        vs.all fun c => !c.kind.opensBlock := by
    intro vs
    induction vs with
    | nil => exact fun i => rfl
    | cons v vs ih =>
      intro i
      rw [numberedList, List.all_cons, List.all_cons, kind_numbered, ih]
  obtain ⟨ref, serial, kind, children⟩ := v
  rw [numbered_node]
  cases kind with
  | cond => exact hall children (i + 1)
  | _ => rfl

mutual

/-- Numbers do not matter to what a block lacks. -/
theorem isBranched_numbered (fresh : ℕ) : ∀ (v : View) (i : ℕ),
    (v.numbered fresh i).isBranched = v.isBranched
  | .node ref serial kind children, i => by
    have hlacks := lacksBranch_numbered fresh i (.node ref serial kind children)
    rw [numbered_node] at hlacks ⊢
    rw [isBranched_node, isBranched_node, hlacks, all_isBranched_numberedList fresh children]

theorem all_isBranched_numberedList (fresh : ℕ) : ∀ (vs : List View) (i : ℕ),
    (numberedList fresh i vs).all isBranched = vs.all isBranched
  | [], i => rfl
  | v :: rest, i => by
    rw [numberedList, List.all_cons, List.all_cons, isBranched_numbered fresh v,
      all_isBranched_numberedList fresh rest]

end

theorem isBranched_leaf {kind : NodeKind} (h : kind ≠ .cond) : (leaf kind).isBranched := by
  rw [leaf, isBranched_node]
  cases kind with
  | cond => exact absurd rfl h
  | _ => rfl

mutual

theorem isBranched_toView : ∀ item : Item, item.toView.isBranched = item.isBranched
  | .text content => isBranched_leaf (by simp)
  | .print expr directives escape => isBranched_leaf (by simp)
  | .call callee passesData => isBranched_leaf (by simp)
  | .msg key desc body => by
    rw [Item.toView, isBranched_node, all_isBranched_toViews body]
    rfl
  | .cond branches none => by
    rw [Item.toView, isBranched_node, all_isBranched_branches branches, Item.isBranched]
    cases branches with
    | nil => rfl
    | cons b rest =>
      cases b
      rfl
  | .cond branches (some body) => by
    rw [Item.toView, isBranched_node, List.all_append, all_isBranched_branches branches,
      List.all_cons, List.all_nil, isBranched_node, all_isBranched_toViews body, Item.isBranched]
    cases branches with
    | nil => rfl
    | cons b rest =>
      cases b
      simp [Branch.toViews, lacksBranch, kind, NodeKind.opensBlock]

theorem all_isBranched_toViews : ∀ items : List Item,
    (Item.toViews items).all isBranched = Item.allBranched items
  | [] => rfl
  | item :: rest => by
    rw [Item.toViews, List.all_cons, isBranched_toView item, all_isBranched_toViews rest,
      Item.allBranched]

theorem all_isBranched_branches : ∀ branches : List Branch,
    (Branch.toViews branches).all isBranched = Branch.allBranched branches
  | [] => rfl
  | .mk condition body :: rest => by
    rw [Branch.toViews, List.all_cons, isBranched_node, all_isBranched_toViews body,
      all_isBranched_branches rest, Branch.allBranched]
    rfl

end

theorem isBranched_fileSet (d : FileSetDescription) : d.toView.isBranched = d.isBranched := by
  have htemplate : ∀ template : TemplateDescription,
      template.toView.isBranched = Item.allBranched template.body := by
    intro template
    rw [TemplateDescription.toView, isBranched_node, all_isBranched_toViews]
    rfl
  have hfile : ∀ file : FileDescription, file.toView.isBranched =
      file.templates.all fun template => Item.allBranched template.body := by
    intro file
    rw [FileDescription.toView, isBranched_node, List.all_map]
    simp only [Function.comp_def, htemplate]
    rfl
  rw [FileSetDescription.toView, isBranched_node, List.all_map]
  simp only [Function.comp_def, hfile]
  rfl

end View

/-- The description that a tree shows. -/
def Tree.description? (t : Tree) : Option FileSetDescription := (t.view Tree.root).fileSet?

end TemplateLang
