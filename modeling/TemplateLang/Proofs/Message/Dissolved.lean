import TemplateLang.Proofs.Message.Localize
import TemplateLang.Proofs.Tree.Expressions

/-! Dissolving a view: every message, at any depth, gives way to its content. A bundle that lists
none of the messages in a view changes nothing of the dissolved view, for replacing a message by
its content only begins to dissolve it. -/

namespace TemplateLang.View

variable {v : View} {bundle : Option Bundle}

mutual

/-- What is left in the place of a view when all messages in it give way to their content and
handles and serial numbers are forgotten. -/
def dissolve : View → List View
  | .node _ _ kind children =>
    if kind.isMessage then listDissolve children
    else [.node Tree.root 0 kind (listDissolve children)]

def listDissolve : List View → List View
  | [] => []
  | v :: rest => dissolve v ++ listDissolve rest

end

theorem listDissolve_eq_flatMap (vs : List View) : listDissolve vs = vs.flatMap dissolve := by
  induction vs with
  | nil => rfl
  | cons v vs ih => rw [listDissolve, ih, List.flatMap_cons]

theorem dissolve_of_isMessage (h : v.kind.isMessage) :
    v.dissolve = v.children.flatMap dissolve := by
  obtain ⟨ref, serial, kind, children⟩ := v
  rw [dissolve, if_pos (show kind.isMessage = true from h), listDissolve_eq_flatMap]
  rfl

/-- A view that is no message, with all messages below it dissolved. -/
def dissolveBelow (v : View) : View := .node Tree.root 0 v.kind (v.children.flatMap dissolve)

theorem dissolve_of_not_isMessage (h : v.kind.isMessage = false) :
    v.dissolve = [v.dissolveBelow] := by
  obtain ⟨ref, serial, kind, children⟩ := v
  have h' : kind.isMessage = false := h
  rw [dissolve, if_neg (by simp [h']), listDissolve_eq_flatMap]
  rfl

theorem dissolve_anonymous (v : View) : v.anonymous.dissolve = v.dissolve := by
  induction v using View.induction with
  | node ref serial kind children ih =>
    have hbelow : (children.map anonymous).flatMap dissolve = children.flatMap dissolve := by
      rw [List.flatMap_map]
      exact List.flatMap_congr ih
    rw [anonymous, dissolve, dissolve, listDissolve_eq_flatMap, listDissolve_eq_flatMap, hbelow]

theorem dissolve_mapExprs (f : Expr → Expr) (v : View) :
    (v.mapExprs f).dissolve = v.dissolve.map (mapExprs f) := by
  induction v using View.induction with
  | node ref serial kind children ih =>
    have hbelow : (children.map (mapExprs f)).flatMap dissolve =
        (children.flatMap dissolve).map (mapExprs f) := by
      rw [List.flatMap_map, List.map_flatMap]
      exact List.flatMap_congr ih
    have hkind : (kind.mapExprs f).isMessage = kind.isMessage := by cases kind <;> rfl
    rw [mapExprs, dissolve, dissolve, listDissolve_eq_flatMap, listDissolve_eq_flatMap, hbelow,
      hkind]
    by_cases h : kind.isMessage
    · rw [if_pos h, if_pos h]
    · rw [if_neg h, if_neg h, List.map_singleton, mapExprs]

/-- The bundle lists no message in the view. -/
def Unlisted (bundle : Option Bundle) (v : View) : Prop :=
  ∀ w ∈ v.nodes, translation bundle w.kind = none

theorem Unlisted.translation_eq (h : v.Unlisted bundle) : translation bundle v.kind = none :=
  h v v.self_mem_nodes

theorem Unlisted.child (h : v.Unlisted bundle) {c : View} (hc : c ∈ v.children) :
    c.Unlisted bundle := by
  obtain ⟨ref, serial, kind, children⟩ := v
  intro w hw
  refine h w ?_
  rw [nodes_node]
  exact List.mem_cons_of_mem _ (List.mem_flatMap.mpr ⟨c, hc, hw⟩)

/-- Replacing messages that are not listed makes no difference once all are dissolved. -/
theorem Unlisted.dissolve_localize (h : v.Unlisted bundle) :
    (v.localize bundle).flatMap dissolve = v.dissolve := by
  induction v using View.induction with
  | node ref serial kind children ih =>
    by_cases hm : (View.node ref serial kind children).kind.isMessage
    · rw [localize_of_isMessage hm, replacement_of_none h.translation_eq, dissolve_of_isMessage hm]
    · have hm : (View.node ref serial kind children).kind.isMessage = false := by simpa using hm
      have hbelow : (children.flatMap (localize bundle)).flatMap dissolve =
          children.flatMap dissolve := by
        rw [List.flatMap_assoc]
        exact List.flatMap_congr fun c hc => ih c hc (h.child hc)
      have hlocal : ((View.node ref serial kind children).localizeBelow bundle).dissolve =
          [((View.node ref serial kind children).localizeBelow bundle).dissolveBelow] :=
        dissolve_of_not_isMessage hm
      rw [localize_eq_singleton hm, List.flatMap_singleton, dissolve_of_not_isMessage hm, hlocal]
      exact congrArg (fun vs => [View.node Tree.root 0 kind vs]) hbelow

end TemplateLang.View
