import TemplateLang.Proofs.Message.Parts
import TemplateLang.Proofs.Directive.Calls
import TemplateLang.Proofs.Tree.Shape
import TemplateLang.Render.Template

/-! Why rendering fails. With the parameters of a call bound, evaluation always succeeds, and a
body in which everything stands where it may fails only as one of its prints, messages or calls
does. From this, by induction on the templates that are open, every failure is traced to a node
of a template in effect: to the data, to the bundle, to a template that is missing or nested
too deep, or to a directive that does not resolve. -/

namespace TemplateLang

/-! ### Evaluation -/

/-- The value of an expression in a direction. -/
def Expr.value (dir : Direction) (d : Data) : Expr → Value
  | .data path => (d.get? path).getD .null
  | .str s => .string s
  | .number n => .number n
  | .bool b => .boolean b
  | .not e => .boolean !(value dir d e).truth
  | .eq left right => .boolean ((value dir d left).looseEq (value dir d right))
  | .bidi f => (f.fold dir).literalValue

theorem Expr.eval_eq_ok {s : Scope} {dir : Direction} (h : s.direction = .ok dir) (d : Data)
    (e : Expr) : e.eval s d = .ok (e.value dir d) := by
  induction e with
  | not e ih => rw [eval, ih]; rfl
  | eq left right ihl ihr => rw [eval, ihl, ihr]; rfl
  | bidi f => rw [eval, h]; rfl
  | _ => rfl

namespace RenderContext

variable {c : RenderContext} {call : View → Data → Except RenderError String} {d : Data}
  {P : RenderError → Prop} {bundle : Option Bundle} {dir : Direction} {v : View} {vs : List View}

/-- The frame of the scope has the messages and the direction of a call. -/
structure Bound (c : RenderContext) (bundle : Option Bundle) (dir : Direction) : Prop where
  msgBundle : c.scope.msgBundle = .ok bundle
  direction : c.scope.direction = .ok dir

theorem Bound.evaluate_eq_ok (hb : c.Bound bundle dir) (d : Data) (e : Expr) :
    c.evaluate d e = .ok (e.value dir d) := by
  rw [evaluate, e.eval_eq_ok hb.direction]
  rfl

/-! ### Bodies -/

/-- What a node does besides rendering the nodes below it fails for the reasons `P` only. -/
def FailsAt (c : RenderContext) (call : View → Data → Except RenderError String) (d : Data)
    (bundle : Option Bundle) (P : RenderError → Prop) (v : View) : Prop :=
  match v.kind with
  | .print e calls _ => FailsOnly P (c.renderPrint v.serial d e calls)
  | .msg key _ => ∀ parts, bundle.bind (·.get? key) = some parts →
      FailsOnly P (c.renderParts d v key parts)
  | .call callee passesData => FailsOnly P (c.renderCall call d callee passesData)
  | _ => True

theorem failsOnly_renderNodes (h : ∀ v ∈ vs, FailsOnly P (c.renderNode call d v)) :
    FailsOnly P (c.renderNodes call d vs) := by
  induction vs with
  | nil => exact failsOnly_ok _
  | cons v vs ih =>
    rw [renderNodes]
    refine (h v (List.mem_cons_self ..)).bind fun text => ?_
    exact (ih fun w hw => h w (List.mem_cons_of_mem _ hw)).bind fun texts => failsOnly_ok _

theorem failsOnly_renderBranches (hb : c.Bound bundle dir)
    (hbody : ∀ v ∈ vs, FailsOnly P (c.renderNodes call d v.children))
    (hlevel : ∀ v ∈ vs, v.kind.level = .branch) {first : Bool}
    (hfirst : first → ∀ v, vs.head? = some v → v.kind.opensBlock) :
    FailsOnly P (c.renderBranches call d first vs) := by
  induction vs generalizing first with
  | nil => exact failsOnly_ok _
  | cons v vs ih =>
    have hrest : FailsOnly P (c.renderBranches call d false vs) :=
      ih (fun w hw => hbody w (List.mem_cons_of_mem _ hw))
        (fun w hw => hlevel w (List.mem_cons_of_mem _ hw)) (fun h => absurd h Bool.false_ne_true)
    have hv := hbody v (List.mem_cons_self ..)
    have hlevel := hlevel v (List.mem_cons_self ..)
    have hopens := fun h => hfirst h v rfl
    obtain ⟨ref, serial, kind, children⟩ := v
    cases kind with
    | branch condition =>
      rw [renderBranches, hb.evaluate_eq_ok, ok_bind]
      split
      · exact hv
      · exact hrest
    | otherwise =>
      rw [renderBranches]
      cases first with
      | true => cases hopens rfl
      | false => exact hv
    | _ => cases hlevel

/-- An item fails as one of its nodes does, and so does the body below a node that owns one. -/
theorem failsOnly_renderNode (hb : c.Bound bundle dir) (hs : v.Shaped)
    (hat : ∀ w ∈ v.nodes, c.FailsAt call d bundle P w) :
    (v.kind.level.isItem → FailsOnly P (c.renderNode call d v)) ∧
      (v.kind.level.ownsBody → FailsOnly P (c.renderNodes call d v.children)) := by
  induction v using View.induction with
  | node ref serial kind children ih =>
    obtain ⟨hself, hbelow⟩ := View.forall_nodes_node.mp hat
    have hchild := fun c hc => ih c hc (hs.child hc) (hbelow c hc)
    have hbody : kind.level.ownsBody → FailsOnly P (c.renderNodes call d children) :=
      fun howns => failsOnly_renderNodes fun c hc => (hchild c hc).1 (hs.isItem howns hc)
    refine ⟨fun hitem => ?_, hbody⟩
    cases kind with
    | text content =>
      rw [renderNode]
      exact failsOnly_ok _
    | print e calls escape =>
      rw [renderNode]
      exact hself
    | cond =>
      rw [renderNode]
      exact failsOnly_renderBranches hb
        (fun c hc => (hchild c hc).2 (by rw [hs.branch rfl hc]; rfl))
        (fun c hc => hs.branch rfl hc) fun _ c hc => hs.fits.opens rfl c hc
    | msg key desc =>
      rw [renderNode, hb.msgBundle]
      cases htrans : bundle.bind (·.get? key) with
      | none => simpa [Except.mapError, htrans] using hbody rfl
      | some parts => simpa [Except.mapError, htrans] using hself parts htrans
    | call callee passesData =>
      rw [renderNode]
      exact hself
    | _ => cases hitem

end RenderContext

end TemplateLang
