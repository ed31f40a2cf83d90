import TemplateLang.Proofs.Tree.Described
import TemplateLang.Tree.Dump
import TemplateLang.Tree.Source

/-! Views with other handles and serial numbers. The source of a view quotes neither, and its dump
quotes a serial number at the end of each line and nowhere else; a numbered view is one whose
handles are the places of the nodes in order of the source. -/

namespace TemplateLang.View

variable {r : NodeRef → NodeRef} {s : NodeRef → ℕ}

/-- A view with the handles and serial numbers that `r` and `s` give to its nodes. -/
def rename (r : NodeRef → NodeRef) (s : NodeRef → ℕ) : View → View
  | .node ref _ kind children => .node (r ref) (s ref) kind (children.map (rename r s))

theorem rename_node (r : NodeRef → NodeRef) (s : NodeRef → ℕ) (ref : NodeRef) (serial : ℕ)
    (kind : NodeKind) (children : List View) :
    (View.node ref serial kind children).rename r s =
      .node (r ref) (s ref) kind (children.map (rename r s)) := by rw [rename]

@[simp] theorem ref_rename (v : View) : (v.rename r s).ref = r v.ref := by
  cases v
  simp [rename_node, ref]

@[simp] theorem serial_rename (v : View) : (v.rename r s).serial = s v.ref := by
  cases v
  simp [rename_node, serial, ref]

@[simp] theorem kind_rename (v : View) : (v.rename r s).kind = v.kind := by
  cases v
  simp [rename_node, kind]

@[simp] theorem children_rename (v : View) :
    (v.rename r s).children = v.children.map (rename r s) := by
  cases v
  simp [rename_node, children]

theorem nodes_rename (v : View) : (v.rename r s).nodes = v.nodes.map (rename r s) := by
  induction v using View.induction with
  | node ref serial kind children ih =>
    simp only [rename_node, nodes_node, List.map_cons, List.flatMap_map, List.map_flatMap]
    exact congrArg _ (List.flatMap_congr ih)

/-! ### Numbering -/

mutual

/-- A view whose nodes have their places for new handles is numbered. -/
theorem numbered_eq_rename (fresh : ℕ) : ∀ (v : View) (i : ℕ),
    (v.nodes.map fun w => (r w.ref).index) = List.range' i v.nodes.length →
      v.numbered fresh i = v.rename r fun n => fresh + (r n).index
  | .node ref serial kind children, i, h => by
    rw [nodes_node, List.map_cons, List.length_cons, List.range'_succ, List.cons.injEq] at h
    obtain ⟨hindex, hbelow⟩ := h
    have href : r ref = ⟨i⟩ := congrArg NodeRef.mk hindex
    rw [numbered_node, rename_node, numberedList_eq_map fresh children (i + 1) hbelow, href]

theorem numberedList_eq_map (fresh : ℕ) : ∀ (vs : List View) (i : ℕ),
    ((vs.flatMap nodes).map fun w => (r w.ref).index) =
        List.range' i (vs.flatMap nodes).length →
      numberedList fresh i vs = vs.map (rename r fun n => fresh + (r n).index)
  | [], i, _ => by rw [numberedList, List.map_nil]
  | v :: vs, i, h => by
    rw [List.flatMap_cons, List.map_append, List.length_append, ← List.range'_append_1] at h
    obtain ⟨hv, hvs⟩ := List.append_inj h (by simp)
    rw [numberedList, List.map_cons, numbered_eq_rename fresh v i hv,
      numberedList_eq_map fresh vs _ hvs]

end

/-! ### Sources -/

mutual

theorem sourceAt_rename (first : Bool) : ∀ v : View,
    (v.rename r s).sourceAt first = v.sourceAt first
  | .node ref serial kind children => by
    have hbelow := childrenSource_rename true children
    cases kind <;> simp only [rename_node, sourceAt, hbelow]

theorem childrenSource_rename : ∀ (first : Bool) (vs : List View),
    childrenSource first (vs.map (rename r s)) = childrenSource first vs
  | _, [] => by rw [List.map_nil]
  | first, v :: vs => by
    rw [List.map_cons, childrenSource, childrenSource, sourceAt_rename first v,
      childrenSource_rename false vs]

end

/-! ### Dumps -/

mutual

/-- The lines of a dump without the names of the nodes. -/
def dumpTexts (depth : ℕ) : View → List String
  | .node _ _ kind children =>
    (indentation depth ++ kind.dumpText) :: listDumpTexts (depth + 1) children

def listDumpTexts (depth : ℕ) : List View → List String
  | [] => []
  | v :: rest => dumpTexts depth v ++ listDumpTexts depth rest

end

/-- A line of a dump, with its end. -/
def dumpLine (text : String) (serial : ℕ) : String := text ++ " [" ++ nodeName serial ++ "]" ++ "\n"

mutual

theorem length_dumpTexts : ∀ (depth : ℕ) (v : View), (v.dumpTexts depth).length = v.nodes.length
  | depth, .node ref serial kind children => by
    rw [dumpTexts, nodes_node, List.length_cons, List.length_cons,
      length_listDumpTexts (depth + 1) children]

theorem length_listDumpTexts : ∀ (depth : ℕ) (vs : List View),
    (listDumpTexts depth vs).length = (vs.flatMap nodes).length
  | _, [] => rfl
  | depth, v :: vs => by
    rw [listDumpTexts, List.flatMap_cons, List.length_append, List.length_append,
      length_dumpTexts depth v, length_listDumpTexts depth vs]

end

mutual

theorem dumpLines_eq : ∀ (depth : ℕ) (v : View), (v.dumpLines depth).map (· ++ "\n") =
    List.zipWith (fun text w => dumpLine text w.serial) (v.dumpTexts depth) v.nodes
  | depth, .node ref serial kind children => by
    rw [dumpLines, dumpTexts, nodes_node, List.map_cons, List.zipWith_cons_cons,
      listDumpLines_eq (depth + 1) children]
    rfl

theorem listDumpLines_eq : ∀ (depth : ℕ) (vs : List View),
    (listDumpLines depth vs).map (· ++ "\n") =
      List.zipWith (fun text w => dumpLine text w.serial) (listDumpTexts depth vs)
        (vs.flatMap nodes)
  | _, [] => rfl
  | depth, v :: vs => by
    rw [listDumpLines, listDumpTexts, List.flatMap_cons, List.map_append,
      List.zipWith_append (length_dumpTexts depth v), dumpLines_eq depth v,
      listDumpLines_eq depth vs]

end

mutual

theorem dumpTexts_rename : ∀ (depth : ℕ) (v : View),
    (v.rename r s).dumpTexts depth = v.dumpTexts depth
  | depth, .node ref serial kind children => by
    rw [rename_node, dumpTexts, dumpTexts, listDumpTexts_rename (depth + 1) children]

theorem listDumpTexts_rename : ∀ (depth : ℕ) (vs : List View),
    listDumpTexts depth (vs.map (rename r s)) = listDumpTexts depth vs
  | _, [] => by rw [List.map_nil]
  | depth, v :: vs => by
    rw [List.map_cons, listDumpTexts, listDumpTexts, dumpTexts_rename depth v,
      listDumpTexts_rename depth vs]

end

end TemplateLang.View
