import Mathlib.Algebra.BigOperators.Group.List.Basic
import Mathlib.Algebra.GroupWithZero.Nat
import TemplateLang.Proofs.Direction.Folded
import TemplateLang.Proofs.Tree.Expressions

/-! Folding as a substitution. In every expression that the root reaches each helper becomes its
literal, the number that the pass reports is how many helpers there were, and nothing else
changes, so that a second run finds nothing to fold. -/

namespace TemplateLang

variable {t t' : Tree} {n : NodeRef} {d : Direction}

namespace Expr

/-- How many helpers of an expression depend on the direction. -/
def helperCount : Expr → ℕ
  | .bidi _ => 1
  | .not e => helperCount e
  | .eq left right => helperCount left + helperCount right
  | _ => 0

/-- An expression with `literal` in the place of each helper. -/
def substHelpers (literal : BidiFn → Expr) : Expr → Expr
  | .bidi f => literal f
  | .not e => .not (substHelpers literal e)
  | .eq left right => .eq (substHelpers literal left) (substHelpers literal right)
  | e => e

theorem fold_eq (d : Direction) (e : Expr) :
    e.fold d = (e.helperCount, e.substHelpers (BidiFn.fold d)) := by
  induction e with
  | not e ih => rw [fold, ih, helperCount, substHelpers]
  | eq left right ihl ihr => rw [fold, ihl, ihr, helperCount, substHelpers]
  | _ => rfl

theorem helperCount_substHelpers {literal : BidiFn → Expr}
    (h : ∀ f, (literal f).helperCount = 0) (e : Expr) :
    (e.substHelpers literal).helperCount = 0 := by
  induction e with
  | bidi f => exact h f
  | not e ih => exact ih
  | eq left right ihl ihr =>
    rw [substHelpers, helperCount, ihl, ihr]
  | _ => rfl

theorem substHelpers_eq_self {e : Expr} (h : e.helperCount = 0) (literal : BidiFn → Expr) :
    e.substHelpers literal = e := by
  induction e with
  | bidi f => cases h
  | not e ih => rw [substHelpers, ih h]
  | eq left right ihl ihr =>
    obtain ⟨hl, hr⟩ := Nat.add_eq_zero_iff.mp h
    rw [substHelpers, ihl hl, ihr hr]
  | _ => rfl

end Expr

theorem BidiFn.helperCount_fold (d : Direction) (f : BidiFn) : (f.fold d).helperCount = 0 := by
  cases f <;> rfl

/-! ### Nodes -/

theorem foldExprs_eq (d : Direction) (es : List Expr) :
    foldExprs d es =
      ((es.map Expr.helperCount).sum, es.map (Expr.substHelpers (BidiFn.fold d))) := by
  induction es with
  | nil => rfl
  | cons e es ih => rw [foldExprs, e.fold_eq, ih, List.map_cons, List.map_cons, List.sum_cons]

theorem foldCalls_eq (d : Direction) (calls : List DirectiveCall) :
    foldCalls d calls =
      (((calls.flatMap DirectiveCall.args).map Expr.helperCount).sum,
        calls.map (DirectiveCall.mapArgs (Expr.substHelpers (BidiFn.fold d)))) := by
  induction calls with
  | nil => rfl
  | cons call calls ih =>
    rw [foldCalls, foldExprs_eq, ih, List.flatMap_cons, List.map_append, List.sum_append,
      List.map_cons]
    rfl

namespace NodeKind

/-- How many helpers in the expressions of a node depend on the direction. -/
def helperCount (k : NodeKind) : ℕ := (k.exprs.map Expr.helperCount).sum

theorem fold_eq (d : Direction) (count : ℕ) (k : NodeKind) :
    k.fold d count =
      (count + k.helperCount, k.mapExprs (Expr.substHelpers (BidiFn.fold d))) := by
  cases k with
  | print e calls escape =>
    rw [fold, e.fold_eq, foldCalls_eq, helperCount, exprs, List.map_cons, List.sum_cons,
      ← Nat.add_assoc]
    rfl
  | branch condition =>
    rw [fold, condition.fold_eq, helperCount, exprs, List.map_singleton, List.sum_singleton]
    rfl
  | _ => rfl

theorem folded_eq (d : Direction) (k : NodeKind) :
    k.folded d = k.mapExprs (Expr.substHelpers (BidiFn.fold d)) := by
  rw [← k.fold_snd d 0, fold_eq]

end NodeKind

/-! ### Trees -/

section

variable {step : ℕ → NodeKind → ℕ × NodeKind} {weight : NodeKind → ℕ} {enters : NodeKind → Bool}

theorem View.mapKindsList_fst {vs : List View}
    (hvs : ∀ v ∈ vs, ∀ s, (v.mapKinds enters step s).1 =
      s + ((v.nodesWhere enters).map (weight ·.kind)).sum) (s : ℕ) :
    (mapKindsList enters step s vs).1 =
      s + ((vs.flatMap (nodesWhere enters)).map (weight ·.kind)).sum := by
  induction vs generalizing s with
  | nil => rfl
  | cons v vs ih =>
    rw [mapKindsList_cons, ih fun w hw => hvs w (List.mem_cons_of_mem _ hw),
      hvs v (List.mem_cons_self ..), List.flatMap_cons, List.map_append, List.sum_append,
      Nat.add_assoc]

/-- A pass that counts on counts what it meets. -/
theorem View.mapKinds_fst (hstep : ∀ s k, (step s k).1 = s + weight k) (s : ℕ) (v : View) :
    (v.mapKinds enters step s).1 = s + ((v.nodesWhere enters).map (weight ·.kind)).sum := by
  induction v using View.induction generalizing s with
  | node ref serial kind children ih =>
    rw [mapKinds_node, nodesWhere, List.map_cons, List.sum_cons, listNodesWhere_eq_flatMap,
      ← Nat.add_assoc]
    by_cases he : enters kind
    · rw [if_pos he, if_pos he, mapKindsList_fst ih, hstep]
      rfl
    · rw [if_neg he, if_neg he, hstep]
      rfl

end

namespace Tree

/-- How many helpers that the root reaches depend on the direction. -/
def helperCount (t : Tree) : ℕ := ((t.descendants root).map fun n => (t.kind n).helperCount).sum

theorem Formed.mapsExprs_foldDirection (h : t.Formed) (d : Direction) :
    MapsExprs (Expr.substHelpers (BidiFn.fold d)) t (t.foldDirection d).2 where
  shape := t.sameShape_foldDirection d
  fresh := fresh_foldl_setKind t _
  kind n hn := by rw [h.kind_foldDirection d hn, NodeKind.folded_eq]
  kind_apart n hn := kind_mapKinds_of_not_reaches h.consistent 0 hn

theorem Formed.foldDirection_fst (h : t.Formed) (d : Direction) :
    (t.foldDirection d).1 = t.helperCount := by
  have hleaf : ∀ x, (!(t.kind x).isPrint) = false → t.children x = [] := fun x hx =>
    h.leveled.children_eq_nil h.consistent (NodeKind.leaf_of_isPrint _ hx)
  have hcount : (t.foldDirection d).1 = _ :=
    View.mapKinds_fst (fun s k => congrArg Prod.fst (k.fold_eq d s)) 0 (t.view root)
  rw [hcount, h.consistent.nodesWhere_eq hleaf, Nat.zero_add, helperCount, descendants,
    List.map_map]
  exact congrArg List.sum (List.map_congr_left fun w hw =>
    congrArg NodeKind.helperCount (kind_of_mem_nodes_view hw))

/-- No helper is left in what the root reaches. -/
def HelperFree (t : Tree) : Prop :=
  ∀ n, t.Reaches root n → ∀ e ∈ (t.kind n).exprs, e.helperCount = 0

theorem Formed.helperFree_foldDirection (h : t.Formed) (d : Direction) :
    (t.foldDirection d).2.HelperFree := by
  intro n hn e he
  have hn' := (t.sameShape_foldDirection d).reaches.mp hn
  rw [(h.mapsExprs_foldDirection d).kind n hn', NodeKind.exprs_mapExprs] at he
  obtain ⟨e₀, -, rfl⟩ := List.mem_map.mp he
  exact Expr.helperCount_substHelpers (BidiFn.helperCount_fold d) e₀

theorem HelperFree.helperCount_eq_zero (hfree : t.HelperFree) (h : t.Consistent) :
    t.helperCount = 0 := by
  refine List.sum_eq_zero fun count hcount => ?_
  obtain ⟨n, hn, rfl⟩ := List.mem_map.mp hcount
  refine List.sum_eq_zero fun count hcount => ?_
  obtain ⟨e, he, rfl⟩ := List.mem_map.mp hcount
  exact hfree n (h.mem_descendants.mp hn) e he

/-- Where no helper is left, folding changes nothing. -/
theorem HelperFree.foldDirection_eq (hfree : t.HelperFree) (h : t.Formed) (d : Direction) :
    t.foldDirection d = (0, t) := by
  have hmaps := h.mapsExprs_foldDirection d
  have htree : (t.foldDirection d).2 = t := by
    refine hmaps.shape.eq hmaps.fresh fun n => ?_
    by_cases hn : t.Reaches root n
    · rw [hmaps.kind n hn, NodeKind.mapExprs_eq_self]
      exact fun e he => Expr.substHelpers_eq_self (hfree n hn e he) _
    · exact hmaps.kind_apart n hn
  exact Prod.ext ((h.foldDirection_fst d).trans (hfree.helperCount_eq_zero h.consistent)) htree

end Tree

end TemplateLang
