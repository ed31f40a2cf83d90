import TemplateLang.Message.Insertion
import TemplateLang.Proofs.Tree.Views

/-! Localizing a view: what replacing the messages of a tree means for the tree as a value. A
message with parts in the bundle becomes texts and prints, one without becomes its content,
and messages in the content stay. Handles and serial numbers do not matter to this. -/

namespace TemplateLang

variable {v w : View}

def NodeKind.isMessage : NodeKind → Bool
  | .msg .. => true
  | _ => false

namespace View

/-! ### Views without names -/

/-- A view with all handles and serial numbers forgotten. -/
def anonymous : View → View
  | .node _ _ kind children => .node Tree.root 0 kind (children.map anonymous)

@[simp] theorem kind_anonymous (v : View) : v.anonymous.kind = v.kind := by
  cases v
  rw [anonymous]
  rfl

theorem children_anonymous (v : View) : v.anonymous.children = v.children.map anonymous := by
  cases v
  rw [anonymous]
  rfl

theorem kinds_anonymous (v : View) : v.anonymous.nodes.map kind = v.nodes.map kind := by
  induction v using View.induction with
  | node ref serial kind children ih =>
    rw [anonymous, nodes_node, nodes_node, List.map_cons, List.map_cons, List.flatMap_map,
      List.map_flatMap, List.map_flatMap]
    exact congrArg _ (List.flatMap_congr ih)

/-- A node without children. -/
def leaf (k : NodeKind) : View := .node Tree.root 0 k []

@[simp] theorem anonymous_leaf (k : NodeKind) : (leaf k).anonymous = leaf k := by
  rw [leaf, anonymous, List.map_nil]

/-! ### Messages -/

/-- What a part of a localized message becomes, if its placeholder refers to a print. -/
def partKind (msg : View) : MessagePart → Option NodeKind
  | .text content => some (.text content)
  | .placeholder name => (msg.placeholder? name).map kind

/-- What all parts of a localized message become. -/
def partKinds (msg : View) : List MessagePart → Option (List NodeKind)
  | [] => some []
  | part :: rest => do
    let k ← msg.partKind part
    let ks ← partKinds msg rest
    return k :: ks

theorem partKinds_cons_eq_none_iff {msg : View} {part : MessagePart} {parts : List MessagePart} :
    msg.partKinds (part :: parts) = none ↔
      msg.partKind part = none ∨ msg.partKinds parts = none := by
  rw [partKinds]
  cases msg.partKind part with
  | none => simp
  | some k => cases msg.partKinds parts <;> simp

/-- Parts become nothing when no print has the name of one of their placeholders. -/
theorem partKinds_eq_none_iff {msg : View} {parts : List MessagePart} :
    msg.partKinds parts = none ↔
      ∃ name, .placeholder name ∈ parts ∧ msg.placeholder? name = none := by
  induction parts with
  | nil => simp [partKinds]
  | cons part parts ih =>
    rw [partKinds_cons_eq_none_iff, ih]
    cases part with
    | text content => simp [partKind]
    | placeholder name => simp [partKind, or_and_right, exists_or]

/-- The parts that a bundle has for a message. -/
def translation (bundle : Option Bundle) : NodeKind → Option (List MessagePart)
  | .msg key _ => bundle.bind (·.get? key)
  | _ => none

/-- Whether all placeholders that the bundle has for a message refer to prints. -/
def Resolves (bundle : Option Bundle) (msg : View) : Prop :=
  ∀ parts, translation bundle msg.kind = some parts → (msg.partKinds parts).isSome

/-- What stands in the place of a message. -/
def replacement (bundle : Option Bundle) (msg : View) : List View :=
  match translation bundle msg.kind with
  | some parts => ((msg.partKinds parts).getD []).map leaf
  | none => msg.children

mutual

/-- A view with its outer messages replaced. -/
def localize (bundle : Option Bundle) : View → List View
  | .node ref serial kind children =>
    if kind.isMessage then replacement bundle (.node ref serial kind children)
    else [.node ref serial kind (listLocalize bundle children)]

def listLocalize (bundle : Option Bundle) : List View → List View
  | [] => []
  | v :: rest => localize bundle v ++ listLocalize bundle rest

end

variable {bundle : Option Bundle}

theorem replacement_of_some {msg : View} {parts : List MessagePart}
    (h : translation bundle msg.kind = some parts) :
    replacement bundle msg = ((msg.partKinds parts).getD []).map leaf := by
  rw [replacement, h]

theorem replacement_of_none {msg : View} (h : translation bundle msg.kind = none) :
    replacement bundle msg = msg.children := by
  rw [replacement, h]

theorem listLocalize_eq_flatMap (vs : List View) :
    listLocalize bundle vs = vs.flatMap (localize bundle) := by
  induction vs with
  | nil => rfl
  | cons v vs ih => rw [listLocalize, ih, List.flatMap_cons]

theorem localize_of_isMessage (h : v.kind.isMessage) :
    v.localize bundle = replacement bundle v := by
  cases v with
  | node ref serial kind children => rw [localize, if_pos (show kind.isMessage = true from h)]

theorem localize_of_not_isMessage {ref : NodeRef} {serial : ℕ} {kind : NodeKind}
    {children : List View} (h : kind.isMessage = false) :
    (View.node ref serial kind children).localize bundle =
      [.node ref serial kind (children.flatMap (localize bundle))] := by
  rw [localize, if_neg (by simp [h]), listLocalize_eq_flatMap]

/-- A view with the outer messages below it replaced. -/
def localizeBelow (bundle : Option Bundle) (v : View) : View :=
  .node v.ref v.serial v.kind (v.children.flatMap (localize bundle))

theorem localizeBelow_node (ref : NodeRef) (serial : ℕ) (kind : NodeKind) (children : List View) :
    (View.node ref serial kind children).localizeBelow bundle =
      .node ref serial kind (children.flatMap (localize bundle)) := rfl

theorem localize_eq_singleton (h : v.kind.isMessage = false) :
    v.localize bundle = [v.localizeBelow bundle] := by
  cases v with
  | node ref serial kind children => exact localize_of_not_isMessage h

theorem outerMessages_node {ref : NodeRef} {serial : ℕ} {kind : NodeKind} {children : List View} :
    (View.node ref serial kind children).outerMessages =
      if kind.isMessage then [ref] else children.flatMap outerMessages := by
  have hlist : ∀ vs : List View, listOuterMessages vs = vs.flatMap outerMessages := by
    intro vs
    induction vs with
    | nil => rfl
    | cons v vs ih => rw [listOuterMessages, ih, List.flatMap_cons]
  cases kind <;> simp [outerMessages, NodeKind.isMessage, hlist]

end View

end TemplateLang
