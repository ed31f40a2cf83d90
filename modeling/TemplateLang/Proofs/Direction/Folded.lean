import TemplateLang.Direction.Folding
import TemplateLang.Proofs.Escaping.Prepared

/-! Folded trees. Folding changes the expressions of a node and nothing else, in each node by
itself, and no helper that depends on the direction is left in what can be reached from the
root. -/

namespace TemplateLang

variable {t : Tree} {n : NodeRef} {d : Direction}

/-! ### Expressions -/

namespace Expr

/-- Whether no helper depends on the direction. -/
def isFolded : Expr → Bool
  | .bidi _ => false
  | .not e => isFolded e
  | .eq left right => isFolded left && isFolded right
  | _ => true

/-- An expression with its helpers folded. -/
def folded (d : Direction) (e : Expr) : Expr := (e.fold d).2

theorem isFolded_folded (d : Direction) (e : Expr) : (e.folded d).isFolded := by
  induction e with
  | not e ih => exact ih
  | eq left right ihl ihr => exact Bool.and_eq_true_iff.mpr ⟨ihl, ihr⟩
  | bidi f => cases f <;> rfl
  | _ => rfl

end Expr

theorem foldExprs_eq_map (d : Direction) (es : List Expr) :
    (foldExprs d es).2 = es.map (Expr.folded d) := by
  induction es with
  | nil => rfl
  | cons e es ih =>
    rw [foldExprs, List.map_cons, ← ih]
    rfl

/-- A call with the helpers in its arguments folded. -/
def DirectiveCall.folded (d : Direction) (call : DirectiveCall) : DirectiveCall :=
  ⟨call.name, call.args.map (Expr.folded d)⟩

theorem foldCalls_eq_map (d : Direction) (calls : List DirectiveCall) :
    (foldCalls d calls).2 = calls.map (DirectiveCall.folded d) := by
  induction calls with
  | nil => rfl
  | cons call calls ih =>
    rw [foldCalls, List.map_cons, ← ih, DirectiveCall.folded, ← foldExprs_eq_map]

/-! ### Nodes -/

namespace NodeKind

/-- A kind with the helpers of its expressions folded. -/
def folded (d : Direction) : NodeKind → NodeKind
  | .print e calls escape => .print (e.folded d) (calls.map (DirectiveCall.folded d)) escape
  | .branch condition => .branch (condition.folded d)
  | kind => kind

theorem fold_snd (d : Direction) (count : ℕ) (k : NodeKind) : (k.fold d count).2 = k.folded d := by
  cases k with
  | print e calls escape => rw [folded, ← foldCalls_eq_map, fold, Expr.folded]
  | _ => rfl

@[simp] theorem level_folded (d : Direction) (k : NodeKind) : (k.folded d).level = k.level := by
  cases k <;> rfl

@[simp] theorem opensBlock_folded (d : Direction) (k : NodeKind) :
    (k.folded d).opensBlock = k.opensBlock := by cases k <;> rfl

/-- Whether the expressions that a node carries are folded. -/
def isFolded : NodeKind → Bool
  | .print e calls _ => e.isFolded && calls.all fun call => call.args.all Expr.isFolded
  | .branch condition => condition.isFolded
  | _ => true

theorem isFolded_folded (d : Direction) (k : NodeKind) : (k.folded d).isFolded := by
  cases k with
  | print e calls escape =>
    refine Bool.and_eq_true_iff.mpr ⟨e.isFolded_folded d, List.all_eq_true.mpr fun call hc => ?_⟩
    obtain ⟨call₀, -, rfl⟩ := List.mem_map.mp hc
    refine List.all_eq_true.mpr fun arg ha => ?_
    obtain ⟨arg₀, -, rfl⟩ := List.mem_map.mp ha
    exact arg₀.isFolded_folded d
  | branch condition => exact condition.isFolded_folded d
  | _ => rfl

end NodeKind

/-! ### Trees -/

namespace Tree

theorem Formed.kind_foldDirection (h : t.Formed) (d : Direction) (hn : t.Reaches root n) :
    (t.foldDirection d).2.kind n = (t.kind n).folded d := by
  have hs : Scoped t (fun kind => !kind.isPrint) (NodeKind.fold d)
      (fun x => (t.kind x).folded d) (fun _ _ => True) :=
    ⟨fun x hx => h.leveled.children_eq_nil h.consistent (NodeKind.leaf_of_isPrint _ hx),
      fun x p s _ _ => ⟨(t.kind x).fold_snd d s, trivial⟩, fun _ _ _ _ _ => trivial⟩
  exact h.consistent.kind_mapKinds hs ((t.kind root).fold_snd d 0) trivial hn

theorem sameShape_foldDirection (t : Tree) (d : Direction) :
    SameShape t (t.foldDirection d).2 := sameShape_mapKinds t _ _ _

theorem level_foldDirection (t : Tree) (d : Direction) (n : NodeRef) :
    (t.foldDirection d).2.level n = t.level n :=
  level_mapKinds (fun s k => by rw [k.fold_snd, NodeKind.level_folded]) 0 n

theorem Formed.foldDirection (h : t.Formed) (d : Direction) : (t.foldDirection d).2.Formed where
  consistent := (t.sameShape_foldDirection d).consistent h.consistent
  leveled := h.leveled.of_sameShape (t.sameShape_foldDirection d) (t.level_foldDirection d)

theorem Opened.foldDirection (h : t.Opened) (d : Direction) : (t.foldDirection d).2.Opened :=
  h.mapKinds (fun s k => by rw [k.fold_snd, NodeKind.level_folded])
    (fun s k => by rw [k.fold_snd, NodeKind.opensBlock_folded]) 0

end Tree

end TemplateLang
