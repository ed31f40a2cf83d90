import TemplateLang.Message.Placeholder
import TemplateLang.Proofs.Expr.Source
import TemplateLang.Proofs.Message.Prints
import TemplateLang.Proofs.Name.Definitions
import TemplateLang.Proofs.Tree.Expressions
import TemplateLang.Proofs.Tree.Loaded

/-! The print that a placeholder refers to when it is the source of a printed expression. That print
has the same operands in the same order, but comparisons may be grouped in another way. -/

namespace TemplateLang

variable {t : Tree} {n : NodeRef} {e e' : Expr}

namespace Tree

/-- Paths of all expressions are of identifiers and not empty, and numbers are finite. -/
def RegularExprs (t : Tree) : Prop := ∀ node ∈ t.nodes.toList, ∀ e ∈ node.kind.exprs, e.isRegular

/-- `e` is printed somewhere inside `n`. -/
def Prints (t : Tree) (n : NodeRef) (e : Expr) : Prop :=
  ∃ x directives escape, t.Reaches n x ∧ t.kind x = .print e directives escape

/-- The placeholder `name` in the message `n` refers to a print of `e`. -/
def RefersTo (t : Tree) (n : NodeRef) (name : String) (e : Expr) : Prop :=
  ∃ y directives escape, (t.view n).placeholder? name = some (t.view y) ∧ t.Reaches n y ∧
    t.kind y = .print e directives escape

/-- Every printed expression is what the placeholder of its source refers to. -/
def PlaceholdersDenote (t : Tree) (n : NodeRef) : Prop :=
  ∀ e, t.Prints n e → ∃ e', t.RefersTo n e.source e' ∧ e'.equals e

theorem RegularExprs.isRegular (h : t.RegularExprs) (hprints : t.Prints n e) : e.isRegular := by
  obtain ⟨x, directives, escape, -, hk⟩ := hprints
  have hhas : t.Has x := has_of_isPrint (by rw [hk]; rfl)
  have hmem : t.node x ∈ t.nodes.toList := by
    rw [node, Array.getElem?_eq_getElem hhas, Option.getD_some]
    exact Array.getElem_mem_toList hhas
  refine h (t.node x) hmem e ?_
  rw [← kind, hk]
  exact List.mem_cons_self ..

theorem RefersTo.prints {name : String} (h : t.RefersTo n name e) : t.Prints n e := by
  obtain ⟨y, directives, escape, -, hreach, hk⟩ := h
  exact ⟨y, directives, escape, hreach, hk⟩

theorem RefersTo.source_eq {name : String} (h : t.RefersTo n name e) : e.source = name := by
  obtain ⟨y, directives, escape, hfind, -, hk⟩ := h
  have hprints := List.find?_some hfind
  rw [kind_view, hk] at hprints
  exact of_decide_eq_true hprints

theorem RefersTo.unique {name : String} (h : t.RefersTo n name e) (h' : t.RefersTo n name e') :
    e = e' := by
  obtain ⟨y, directives, escape, hfind, -, hk⟩ := h
  obtain ⟨y', directives', escape', hfind', -, hk'⟩ := h'
  have hviews : t.view y = t.view y' := Option.some.inj (hfind.symm.trans hfind')
  have hkinds := congrArg View.kind hviews
  rw [kind_view, kind_view, hk, hk'] at hkinds
  exact (NodeKind.print.inj hkinds).1

/-- The source of a printed expression refers to some print. -/
theorem exists_refersTo (hc : t.Consistent) (hn : (t.kind n).isPrint = false)
    (h : t.Prints n e) : ∃ e', t.RefersTo n e.source e' := by
  obtain ⟨x, directives, escape, hreach, hk⟩ := h
  have hne : x ≠ n := by
    rintro rfl
    rw [hk] at hn
    cases hn
  have hmem := hc.mem_tail_nodes_view.mpr ⟨x, hreach, hne, rfl⟩
  have hprints : (t.view x).kind.prints e.source := by
    rw [kind_view, hk]
    exact decide_eq_true rfl
  have hfound : ((t.view n).placeholder? e.source).isSome :=
    List.find?_isSome.mpr ⟨t.view x, hmem, hprints⟩
  obtain ⟨w, hw⟩ := Option.isSome_iff_exists.mp hfound
  obtain ⟨hmem, hprint⟩ := View.isPrint_of_placeholder? hw
  obtain ⟨y, hreach, -, rfl⟩ := hc.mem_tail_nodes_view.mp hmem
  rw [kind_view] at hprint
  cases hky : t.kind y with
  | print e' directives escape => exact ⟨e', y, directives, escape, hw, hreach, hky⟩
  | _ => rw [hky] at hprint; cases hprint

/-- A placeholder that is the source of a printed expression refers to a print with the same
operands. All placeholders of a message denote what they name exactly when no two of its prints
group the same operands in different ways, as when comparisons are left-nested. -/
theorem placeholdersDenote_iff {fresh : ℕ} {text key desc : String}
    (hload : Tree.load fresh text = .ok t) (hregular : t.RegularExprs)
    (hmsg : t.kind n = .msg key desc) :
    (∀ e, t.Prints n e → ∃ e', t.RefersTo n e.source e' ∧ e'.SameOperands e) ∧
      (t.PlaceholdersDenote n ↔
        ∀ e e', t.Prints n e → t.Prints n e' → e.SameOperands e' → e.equals e') ∧
      ((∀ e, t.Prints n e → e.isLeftNested) → t.PlaceholdersDenote n) := by
  have hrefers : ∀ e, t.Prints n e → ∃ e', t.RefersTo n e.source e' ∧ e'.SameOperands e := by
    intro e he
    obtain ⟨e', he'⟩ := exists_refersTo (loaded_of_load hload).consistent (by rw [hmsg]; rfl) he
    exact ⟨e', he', (Expr.source_eq_iff (hregular.isRegular he'.prints)
      (hregular.isRegular he)).mp he'.source_eq⟩
  have hdenote : t.PlaceholdersDenote n ↔
      ∀ e e', t.Prints n e → t.Prints n e' → e.SameOperands e' → e.equals e' := by
    constructor
    · intro h e e' he he' hsame
      have hsource : e.source = e'.source :=
        (Expr.source_eq_iff (hregular.isRegular he) (hregular.isRegular he')).mpr hsame
      obtain ⟨d, hd, hequals⟩ := h e he
      obtain ⟨d', hd', hequals'⟩ := h e' he'
      rw [← hsource] at hd'
      obtain rfl := hd.unique hd'
      rw [Expr.equals_comm] at hequals
      exact Expr.equals_trans hequals hequals'
    · intro h e he
      obtain ⟨e', he', hsame⟩ := hrefers e he
      exact ⟨e', he', h e' e he'.prints he hsame⟩
  exact ⟨hrefers, hdenote, fun hnested => hdenote.mpr fun e e' he he' hsame =>
    Expr.equals_of_isLeftNested (hnested e he) (hnested e' he') hsame⟩

/-! ### Two groupings of the same operands -/

/-- The negation of `$x` compared with `$y`. -/
def negatedOperand : Expr := .eq (.not (.data ["x"])) (.data ["y"])

/-- The comparison of `$x` with `$y` negated. -/
def negatedComparison : Expr := .not (.eq (.data ["x"]) (.data ["y"]))

/-- A message with both groupings of its operands, and a message with one of them. -/
def groupingsText : String := String.join
  ["[[[\"a.tmpl\",\"app\",[[\"app.main\",false,true,[[\"msg\",\"both\",\"\",[",
    "[\"print\",\x7b\"eq\":[\x7b\"not\":\x7b\"data\":[\"x\"]\x7d\x7d,",
    "\x7b\"data\":[\"y\"]\x7d]\x7d],",
    "[\"print\",\x7b\"not\":\x7b\"eq\":[\x7b\"data\":[\"x\"]\x7d,",
    "\x7b\"data\":[\"y\"]\x7d]\x7d\x7d]]],",
    "[\"msg\",\"one\",\"\",[[\"print\",\x7b\"data\":[\"x\"]\x7d],",
    "[\"print\",\x7b\"eq\":[\x7b\"not\":\x7b\"data\":[\"x\"]\x7d\x7d,",
    "\x7b\"data\":[\"y\"]\x7d]\x7d]]]]]]]]]"]

def groupings : Tree :=
  ⟨#[⟨0, .fileSet, none, [⟨1⟩]⟩, ⟨1, .file "a.tmpl" "app", some root, [⟨2⟩]⟩,
    ⟨2, .template "app.main" false true, some ⟨1⟩, [⟨3⟩, ⟨6⟩]⟩,
    ⟨3, .msg "both" "", some ⟨2⟩, [⟨4⟩, ⟨5⟩]⟩, ⟨4, .print negatedOperand [] none, some ⟨3⟩, []⟩,
    ⟨5, .print negatedComparison [] none, some ⟨3⟩, []⟩,
    ⟨6, .msg "one" "", some ⟨2⟩, [⟨7⟩, ⟨8⟩]⟩, ⟨7, .print (.data ["x"]) [] none, some ⟨6⟩, []⟩,
    ⟨8, .print negatedOperand [] none, some ⟨6⟩, []⟩], 9⟩

theorem load_groupingsText : Tree.load 0 groupingsText = .ok groupings :=
  (load_of_toList 0 String.toList_join).trans (by decide +kernel)

theorem regularExprs_groupings : groupings.RegularExprs := by
  unfold RegularExprs
  decide +kernel

/-- The message with one grouping prints what its placeholders name. -/
theorem placeholdersDenote_groupings :
    groupings.Prints ⟨6⟩ negatedOperand ∧ groupings.PlaceholdersDenote ⟨6⟩ := by
  have hc := (loaded_of_load load_groupingsText).consistent
  have hnested : ∀ x ∈ groupings.descendants ⟨6⟩, ∀ e ∈ (groupings.kind x).exprs,
      e.isLeftNested := by
    decide +kernel
  have hreach : groupings.Reaches ⟨6⟩ ⟨8⟩ := hc.mem_descendants.mp (by decide +kernel)
  have hkind : groupings.kind ⟨6⟩ = .msg "one" "" := by decide +kernel
  refine ⟨⟨⟨8⟩, [], none, hreach, by decide +kernel⟩, ?_⟩
  refine (placeholdersDenote_iff load_groupingsText regularExprs_groupings hkind).2.2 ?_
  rintro e ⟨x, directives, escape, hx, hk⟩
  refine hnested x (hc.mem_descendants.mpr hx) e ?_
  rw [hk]
  exact List.mem_cons_self ..

/-- Not all placeholders denote the expression that they name: that of the second print refers to
the first one, whose comparison is not negated. -/
theorem not_all_placeholders_denote :
    ¬ ∀ (fresh : ℕ) (text : String) (t : Tree) (n : NodeRef) (key desc : String),
      Tree.load fresh text = .ok t → t.RegularExprs → t.kind n = .msg key desc →
      t.PlaceholdersDenote n := by
  intro h
  have hreach : groupings.Reaches ⟨3⟩ ⟨5⟩ :=
    (loaded_of_load load_groupingsText).consistent.mem_descendants.mp (by decide +kernel)
  have hprints : groupings.Prints ⟨3⟩ negatedComparison :=
    ⟨⟨5⟩, [], none, hreach, by decide +kernel⟩
  obtain ⟨e, ⟨y, directives, escape, hfind, -, hk⟩, hequals⟩ :=
    h 0 groupingsText groupings ⟨3⟩ "both" "" load_groupingsText regularExprs_groupings
      (by decide +kernel) negatedComparison hprints
  have hfirst : ((groupings.view ⟨3⟩).placeholder? negatedComparison.source).map View.ref =
      some ⟨4⟩ := by
    decide +kernel
  rw [hfind, Option.map_some, ref_view] at hfirst
  obtain rfl := Option.some.inj hfirst
  have hkind : groupings.kind ⟨4⟩ = .print negatedOperand [] none := by decide +kernel
  obtain ⟨rfl, -, -⟩ := NodeKind.print.inj (hk.symm.trans hkind)
  exact absurd hequals (by decide +kernel)

end Tree

end TemplateLang
