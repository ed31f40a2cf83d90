import TemplateLang.Name.Qualified
import TemplateLang.Proofs.Target.Outline
import TemplateLang.Proofs.Tree.Views

/-! The call statements of a body. They stand for the calls below the template, one for each and in
order of the source, with the target that the dialect gives to the callee. -/

namespace TemplateLang

/-! ### Calls of statements -/

mutual

/-- The targets of the calls in a statement, each with whether it passes data. -/
def Statement.calls : Statement → List (String × Bool)
  | .append _ => []
  | .call target passesData => [(target, passesData)]
  | .block _ body later => bodyCalls body ++ laterCalls later

def bodyCalls : List Statement → List (String × Bool)
  | [] => []
  | s :: rest => s.calls ++ bodyCalls rest

def laterCalls : List LaterBranch → List (String × Bool)
  | [] => []
  | .mk _ body :: rest => bodyCalls body ++ laterCalls rest

end

theorem bodyCalls_append (body more : List Statement) :
    bodyCalls (body ++ more) = bodyCalls body ++ bodyCalls more := by
  induction body with
  | nil => rfl
  | cons s body ih => rw [List.cons_append, bodyCalls, bodyCalls, ih, List.append_assoc]

/-! ### Calls of nodes -/

/-- The callee of a call, with whether it gets data. -/
def NodeKind.call? : NodeKind → Option (String × Bool)
  | .call callee passesData => some (callee, passesData)
  | _ => none

/-- The calls at a node and below it, in order of the source. -/
def View.calls (v : View) : List (String × Bool) :=
  (v.nodesWhere NodeKind.holdsNames).filterMap fun w => w.kind.call?

namespace View

theorem calls_node (ref : NodeRef) (serial : ℕ) (kind : NodeKind) (children : List View) :
    (View.node ref serial kind children).calls =
      kind.call?.toList ++ if kind.holdsNames then children.flatMap calls else [] := by
  rw [calls, nodesWhere, List.filterMap_cons, View.kind]
  have hbelow : (if kind.holdsNames then listNodesWhere NodeKind.holdsNames children
      else []).filterMap (fun w => w.kind.call?) =
      if kind.holdsNames then children.flatMap calls else [] := by
    split_ifs
    · rw [listNodesWhere_eq_flatMap, List.filterMap_flatMap]
      rfl
    · rfl
  rw [hbelow]
  cases kind.call? <;> rfl

/-- The calls of a template are those below it. -/
theorem calls_of_template {v : View} {name : String} {isOverride autoescape : Bool}
    (h : v.kind = .template name isOverride autoescape) : v.calls = v.children.flatMap calls := by
  obtain ⟨ref, serial, kind, children⟩ := v
  obtain rfl : kind = .template name isOverride autoescape := h
  exact calls_node ..

end View

/-! ### Outlines -/

section

variable {d : Dialect} {registry : Registry} {target : String → String}

/-- A call with its target in place of the callee. -/
def aimed (target : String → String) (call : String × Bool) : String × Bool :=
  (target call.1, call.2)

mutual

theorem calls_outlineNode : ∀ {v : View} {body : List Statement},
    outlineNode d registry target v = .ok body → bodyCalls body = v.calls.map (aimed target)
  | .node ref serial kind children, body, h => by
    rw [View.calls_node]
    cases kind with
    | text content =>
      obtain rfl := Except.ok.inj h
      split <;> rfl
    | print e calls escape =>
      obtain ⟨f, -, h⟩ := bind_eq_ok.mp h
      obtain rfl := Except.ok.inj h
      rfl
    | cond => exact calls_outlineBlock h
    | msg key desc => exact calls_outlineBody h
    | call callee passesData =>
      obtain rfl := Except.ok.inj h
      rfl
    | _ => cases h

theorem calls_outlineBody : ∀ {vs : List View} {body : List Statement},
    outlineBody d registry target vs = .ok body →
      bodyCalls body = (vs.flatMap View.calls).map (aimed target)
  | [], body, h => by
    obtain rfl := Except.ok.inj h
    rfl
  | v :: rest, body, h => by
    obtain ⟨first, hfirst, h⟩ := bind_eq_ok.mp h
    obtain ⟨more, hmore, h⟩ := bind_eq_ok.mp h
    obtain rfl := Except.ok.inj h
    rw [bodyCalls_append, calls_outlineNode hfirst, calls_outlineBody hmore, List.flatMap_cons,
      List.map_append]

theorem calls_outlineBlock : ∀ {vs : List View} {body : List Statement},
    outlineBlock d registry target vs = .ok body →
      bodyCalls body = (vs.flatMap View.calls).map (aimed target)
  | [], body, h => by
    obtain rfl := Except.ok.inj h
    rfl
  | .node ref serial kind children :: rest, body, h => by
    rw [List.flatMap_cons, View.calls_node]
    cases kind with
    | branch condition =>
      obtain ⟨test, -, h⟩ := bind_eq_ok.mp h
      obtain ⟨inner, hinner, h⟩ := bind_eq_ok.mp h
      obtain ⟨later, hlater, h⟩ := bind_eq_ok.mp h
      obtain rfl := Except.ok.inj h
      rw [bodyCalls, bodyCalls, Statement.calls, calls_outlineBody hinner,
        calls_outlineLater hlater, List.append_nil, ← List.map_append]
      rfl
    | _ => cases h

theorem calls_outlineLater : ∀ {vs : List View} {later : List LaterBranch},
    outlineLater d registry target vs = .ok later →
      laterCalls later = (vs.flatMap View.calls).map (aimed target)
  | [], later, h => by
    obtain rfl := Except.ok.inj h
    rfl
  | .node ref serial kind children :: rest, later, h => by
    rw [List.flatMap_cons, View.calls_node]
    cases kind with
    | branch condition =>
      obtain ⟨test, -, h⟩ := bind_eq_ok.mp h
      obtain ⟨inner, hinner, h⟩ := bind_eq_ok.mp h
      obtain ⟨more, hmore, h⟩ := bind_eq_ok.mp h
      obtain rfl := Except.ok.inj h
      rw [laterCalls, calls_outlineBody hinner, calls_outlineLater hmore, ← List.map_append]
      rfl
    | otherwise =>
      obtain ⟨inner, hinner, h⟩ := bind_eq_ok.mp h
      obtain ⟨more, hmore, h⟩ := bind_eq_ok.mp h
      obtain rfl := Except.ok.inj h
      rw [laterCalls, calls_outlineBody hinner, calls_outlineLater hmore, ← List.map_append]
      rfl
    | _ => cases h

end

end

end TemplateLang
