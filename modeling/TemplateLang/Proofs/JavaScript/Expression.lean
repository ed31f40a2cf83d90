import TemplateLang.Proofs.JavaScript.Grammar
import TemplateLang.Proofs.Result

/-! Generated JavaScript means the expression that it is generated from. A fragment represents
an expression when its text has the tokens of one, of a form that its precedence promises; every
way of putting fragments together keeps this, because parentheses are added exactly where the
form is too loose. -/

namespace TemplateLang

/-- Paths are of identifiers, numbers are finite, and nothing depends on the direction. -/
def Expr.isPlain : Expr → Bool
  | .data path => !path.isEmpty && path.all Text.isIdentifier
  | .str _ | .bool _ => true
  | .number n => n.isFinite
  | .not e => e.isPlain
  | .eq left right => left.isPlain && right.isPlain
  | .bidi _ => false

namespace JavaScript

namespace Expression

/-- The expression in JavaScript, where data are members of a parameter. -/
def ofExpr : Expr → Expression
  | .data path => path.foldl .member (.name "opt_data")
  | .str s => .string s
  | .number n => .number n.sourceText
  | .bool b => .bool b
  | .not e => .not (ofExpr e)
  | .eq left right => .equal (ofExpr left) (ofExpr right)
  | .bidi f => .call (.name f.sourceName) []

/-- A call of one of the functions that generated code relies on. -/
def helper (name : String) (args : List Expression) : Expression :=
  .call (.member (.name "stencil") ("$$" ++ name)) args

/-- A directive applied to a value. -/
def apply (value : Expression) : Directive → List Expression → Expression
  | .noAutoescape, _ => value
  | .truncate, args =>
    helper Directive.truncate.bareName (value :: args.head?.toList ++ [args[1]?.getD (.bool true)])
  | d, _ => helper d.bareName [value]

/-- The value of a print after its directives, in their order. -/
def printed (value : Expression) (chain : List (DirectiveCall × Directive)) : Expression :=
  chain.foldl (fun value p => value.apply p.2 (p.1.args.map ofExpr)) value

end Expression

/-! ### Fragments -/

/-- The form that a precedence promises. -/
def formOf (precedence : ℕ) : Form := if precedence ≤ equalityPrecedence then .equality else .unary

/-- The text of the fragment is that of the expression, whatever follows. -/
def Represents (f : Fragment) (e : Expression) : Prop :=
  ∃ tokens, Scans f.text.toList tokens ∧ Derives (formOf f.precedence) tokens e

variable {f g : Fragment} {e left right callee : Expression} {tokens : List Token}

theorem Represents.equality_form (h : Represents f e) :
    ∃ tokens, Scans f.text.toList tokens ∧ Derives .equality tokens e := by
  obtain ⟨tokens, hscan, hderives⟩ := h
  refine ⟨tokens, hscan, ?_⟩
  unfold formOf at hderives
  split at hderives
  · exact hderives
  · exact .ofUnary hderives

/-- A fragment is its text and nothing else. -/
theorem Represents.reads_iff (h : Represents f e) {tree : Expression} :
    Reads f.text tree ↔ tree = e := by
  obtain ⟨tokens, hscan, hderives⟩ := h.equality_form
  have hself : Reads f.text e := ⟨tokens, hscan.lexes, hderives⟩
  constructor
  · exact fun htree => htree.unique hself
  · rintro rfl
    exact hself

theorem represents_atom {text : String} (hscan : Scans text.toList tokens)
    (h : Derives .unary tokens e) : Represents (.atom text) e := ⟨tokens, hscan, h⟩

/-- In parentheses every expression binds tightest. -/
theorem Represents.group (h : Represents f e) :
    ∃ tokens, Scans ("(" ++ f.text ++ ")").toList tokens ∧ Derives .primary tokens e := by
  obtain ⟨tokens, hscan, hderives⟩ := h.equality_form
  refine ⟨_, ?_, .group hderives⟩
  simpa using scans_nil.openParen hscan.closeParen

/-- Above the precedence of the comparison an operand is one of prefix operators. -/
theorem Represents.operand (h : Represents f e) (least : ℕ) (hleast : equalityPrecedence < least) :
    ∃ tokens, Scans (f.textAtLeast least).toList tokens ∧ Derives .unary tokens e := by
  rw [Fragment.textAtLeast]
  split
  · obtain ⟨tokens, hscan, hderives⟩ := h.group
    exact ⟨tokens, hscan, .ofPrimary hderives⟩
  · next hge =>
    obtain ⟨tokens, hscan, hderives⟩ := h
    rw [formOf, if_neg (by omega)] at hderives
    exact ⟨tokens, hscan, hderives⟩

theorem Represents.leftOperand (h : Represents f e) (least : ℕ) :
    ∃ tokens, Scans (f.textAtLeast least).toList tokens ∧ Derives .equality tokens e := by
  rw [Fragment.textAtLeast]
  split
  · obtain ⟨tokens, hscan, hderives⟩ := h.group
    exact ⟨tokens, hscan, .ofUnary (.ofPrimary hderives)⟩
  · exact h.equality_form

theorem Represents.negation (h : Represents f e) : Represents (negation f) (.not e) := by
  obtain ⟨tokens, hscan, hderives⟩ := h.operand notPrecedence (by decide)
  obtain ⟨t, more, rfl, ht⟩ := hderives.exists_head
  refine ⟨_, ?_, .not hderives⟩
  simpa [JavaScript.negation] using hscan.bang ht

theorem Represents.equality (hf : Represents f left) (hg : Represents g right) :
    Represents (equality f g) (.equal left right) := by
  obtain ⟨tokens, hscan, hderives⟩ := hf.leftOperand equalityPrecedence
  obtain ⟨tokens', hscan', hderives'⟩ := hg.operand (equalityPrecedence + 1) (by decide)
  refine ⟨_, ?_, .equal hderives hderives'⟩
  simpa [JavaScript.equality] using hscan.equal hscan'

/-! ### Names and calls -/

theorem Derives.members {ts : List Token} (h : Derives .primary ts e) (path : List String) :
    Derives .primary (ts ++ path.flatMap fun s => [.dot, .word s]) (path.foldl .member e) := by
  induction path generalizing ts e with
  | nil => simpa using h
  | cons s path ih => simpa using ih (.member s h)

/-- Dotted names are members of what the first name stands for. -/
theorem derives_memberTokens (name : String) (path : List String) :
    Derives .primary (memberTokens name path) (path.foldl .member (.ofWord name)) :=
  (Derives.word name).members path

theorem exists_arguments {text : List Char} {done : List Expression} {fs : List Fragment}
    {es : List Expression} (hscan : Scans text tokens)
    (hderives : Derives .arguments tokens (.call callee done)) (h : List.Forall₂ Represents fs es) :
    ∃ tokens', Scans (text ++ fs.flatMap fun f => [',', ' '] ++ f.text.toList) tokens' ∧
      Derives .arguments tokens' (.call callee (done ++ es)) := by
  induction h generalizing text tokens done with
  | nil => exact ⟨tokens, by simpa using hscan, by simpa using hderives⟩
  | cons hf _ ih =>
    obtain ⟨ts, hts, hd⟩ := hf.equality_form
    obtain ⟨tokens', hscan', hderives'⟩ := ih (hscan.comma hts) (.next hderives hd)
    exact ⟨tokens', by simpa using hscan', by simpa using hderives'⟩

/-- A call of a function by its dotted name, with arguments. -/
theorem represents_call (name : String) (path : List String) {es : List Expression}
    {fs : List Fragment} (hname : Text.isIdentifier name) (hpath : ∀ s ∈ path, Text.isIdentifier s)
    (hf : Represents f e) (h : List.Forall₂ Represents fs es) :
    Represents (.call (Text.join "." (name :: path)) (f :: fs))
      (.call (path.foldl .member (.ofWord name)) (e :: es)) := by
  obtain ⟨ts, hts, hd⟩ := hf.equality_form
  have hscans := (scans_join name path hname hpath).openParen hts
  obtain ⟨tokens, hscan, hderives⟩ := exists_arguments hscans
    (.first (derives_memberTokens name path) hd) h
  refine ⟨_, ?_, .ofPrimary (.call hderives)⟩
  have htext : (Fragment.call (Text.join "." (name :: path)) (f :: fs)).text.toList =
      (Text.join "." (name :: path)).toList ++ '(' :: ([] ++ f.text.toList) ++
        (fs.flatMap fun f => [',', ' '] ++ f.text.toList) ++ ')' :: ([] ++ []) := by
    rw [Fragment.call, Fragment.atom, List.map_cons]
    simp [Text.toList_join_cons, List.flatMap_map]
  rw [htext]
  exact hscan.closeParen

/-! ### Expressions -/

theorem isIdentifier_helper (d : Directive) : Text.isIdentifier ("$$" ++ d.bareName) := by
  cases d <;> decide

variable (declares : Bool) (node : ℕ)

theorem exists_expr {e : Expr} (he : e.isPlain) :
    ∃ f, (dialect declares).expr node e = .ok f ∧ Represents f (.ofExpr e) := by
  induction e with
  | data path =>
    simp only [Expr.isPlain, Bool.and_eq_true, Bool.not_eq_true', List.isEmpty_eq_false_iff,
      List.all_eq_true] at he
    obtain ⟨hne, hpath⟩ := he
    have hjoin : "opt_data." ++ Text.join "." path = Text.join "." ("opt_data" :: path) := by
      obtain ⟨s, path, rfl⟩ := List.exists_cons_of_ne_nil hne
      rw [← String.toList_inj, String.toList_append, Text.toList_join_cons, Text.toList_join_cons]
      simp
    have hscan := scans_join "opt_data" path (by decide) hpath
    rw [← hjoin] at hscan
    exact ⟨_, rfl, represents_atom hscan (.ofPrimary (derives_memberTokens "opt_data" path))⟩
  | str s => exact ⟨_, rfl, represents_atom (scans_literal s) (.ofPrimary (.string s))⟩
  | number n =>
    refine ⟨_, rfl, ?_⟩
    rcases scans_number he with hscan | ⟨text, htext, hscan⟩
    · exact represents_atom hscan (.ofPrimary (.number _))
    · refine represents_atom hscan ?_
      rw [Expression.ofExpr, htext]
      exact .negative text
  | bool b =>
    cases b with
    | true => exact ⟨_, rfl, represents_atom (scans_join "true" [] (by decide) (by simp))
        (.ofPrimary (.word "true"))⟩
    | false => exact ⟨_, rfl, represents_atom (scans_join "false" [] (by decide) (by simp))
        (.ofPrimary (.word "false"))⟩
  | not e ih =>
    obtain ⟨f, hf, hrep⟩ := ih he
    refine ⟨negation f, ?_, hrep.negation⟩
    rw [Dialect.expr, hf]
    rfl
  | eq left right ihLeft ihRight =>
    obtain ⟨hleft, hright⟩ := Bool.and_eq_true_iff.mp he
    obtain ⟨f, hf, hrep⟩ := ihLeft hleft
    obtain ⟨g, hg, hrep'⟩ := ihRight hright
    refine ⟨equality f g, ?_, hrep.equality hrep'⟩
    rw [Dialect.expr, hf, hg]
    rfl
  | bidi f => cases he

theorem exists_args {args : List Expr} (h : ∀ e ∈ args, e.isPlain) :
    ∃ fs, args.mapM ((dialect declares).expr node) = .ok fs ∧
      List.Forall₂ Represents fs (args.map .ofExpr) := by
  induction args with
  | nil => exact ⟨[], rfl, .nil⟩
  | cons e args ih =>
    obtain ⟨f, hf, hrep⟩ := exists_expr declares node
      (h e (List.mem_cons_self ..))
    obtain ⟨fs, hfs, hreps⟩ := ih fun a ha => h a (List.mem_cons_of_mem _ ha)
    refine ⟨f :: fs, ?_, .cons hrep hreps⟩
    rw [List.mapM_cons, hf, ok_bind, hfs]
    rfl

/-- Every directive has a form, which applies it to the value. -/
theorem Represents.apply (hf : Represents f e) {fs : List Fragment} {es : List Expression}
    (h : List.Forall₂ Represents fs es) (d : Directive) :
    ∃ write, d.jsSource? = some write ∧ Represents (write f fs) (e.apply d es) := by
  have hcall : ∀ {gs : List Fragment} {ds : List Expression}, List.Forall₂ Represents gs ds →
      Represents (.call (Directive.jsHelper d.bareName) (f :: gs))
        (Expression.helper d.bareName (e :: ds)) := fun hgs =>
    represents_call "stencil" ["$$" ++ d.bareName] (by decide)
      (by simpa using isIdentifier_helper d) hf hgs
  cases d with
  | noAutoescape => exact ⟨_, rfl, hf⟩
  | truncate =>
    have htrue : Represents (.atom "true") (.bool true) :=
      represents_atom (scans_join "true" [] (by decide) (by simp))
        (.ofPrimary (.word "true"))
    refine ⟨_, rfl, ?_⟩
    rcases h with _ | ⟨h₁, _ | ⟨h₂, _⟩⟩
    · exact hcall (.cons htrue .nil)
    · exact hcall (.cons h₁ (.cons htrue .nil))
    · exact hcall (.cons h₁ (.cons h₂ .nil))
  | changeNewlineToBr | escapeHtml | escapeJsString | escapeUri => exact ⟨_, rfl, hcall .nil⟩

variable {registry : Registry} {chain : List (DirectiveCall × Directive)}

theorem exists_foldlM (site : String)
    (hchain : ∀ p ∈ chain, registry.resolve p.1 = .ok p.2 ∧ p.1.args.all Expr.isPlain)
    (hf : Represents f e) :
    ∃ g, (chain.map Prod.fst).foldlM ((dialect declares).applyCall registry node site) f = .ok g ∧
      Represents g (e.printed chain) := by
  induction chain generalizing f e with
  | nil => exact ⟨f, rfl, hf⟩
  | cons p chain ih =>
    obtain ⟨hresolve, hargs⟩ := hchain p (List.mem_cons_self ..)
    obtain ⟨fs, hfs, hreps⟩ := exists_args declares node
      (List.all_eq_true.mp hargs)
    obtain ⟨write, hwrite, hrep⟩ := hf.apply hreps p.2
    obtain ⟨g, hg, hprinted⟩ := ih (fun q hq => hchain q (List.mem_cons_of_mem _ hq)) hrep
    refine ⟨g, ?_, hprinted⟩
    have hcall : (dialect declares).applyCall registry node site f p.1 = .ok (write f fs) := by
      rw [Dialect.applyCall, hresolve, show (Except.ok p.2 : Except CompileError _).mapError _ =
        .ok p.2 from rfl, ok_bind, hfs, ok_bind,
        show (dialect declares).directive? p.2 = some write from hwrite]
      rfl
    rw [List.map_cons, List.foldlM_cons, hcall]
    exact hg

/-- The text of an expression is read as the expression and in no other way, and so is what a
print appends: its directives applied one after the other to exactly that value. -/
theorem reads_printValue {e : Expr} (he : e.isPlain)
    (hchain : ∀ p ∈ chain, registry.resolve p.1 = .ok p.2 ∧ p.1.args.all Expr.isPlain) :
    (∃ f, (dialect declares).expr node e = .ok f ∧
      ∀ tree, Reads f.text tree ↔ tree = .ofExpr e) ∧
    ∃ f, (dialect declares).printValue registry node e (chain.map Prod.fst) = .ok f ∧
      ∀ tree, Reads f.text tree ↔ tree = (Expression.ofExpr e).printed chain := by
  obtain ⟨f, hf, hrep⟩ := exists_expr declares node he
  refine ⟨⟨f, hf, fun _ => hrep.reads_iff⟩, ?_⟩
  obtain ⟨g, hg, hprinted⟩ := exists_foldlM declares node
    (printSource e (chain.map Prod.fst)) hchain hrep
  refine ⟨g, ?_, fun _ => hprinted.reads_iff⟩
  rw [Dialect.printValue, hf]
  exact hg

/-- A comparison under a negation, with a text that looks like operators and a negative number. -/
def nestedExpr : Expr :=
  .eq (.not (.eq (.data ["user", "name"]) (.str "it's == (x)"))) (.number (.ofRatio true 3 2))

/-- The value is cut, without an ellipsis, and then escaped. -/
def cutChain : List (DirectiveCall × Directive) :=
  [(⟨"|truncate", [.number (.ofNat 3), .bool false]⟩, .truncate),
    (⟨"|escapeHtml", []⟩, .escapeHtml)]

example : ((dialect true).printValue .full 0 nestedExpr (cutChain.map Prod.fst)).toOption.map
      Fragment.text =
    some ("stencil.$$escapeHtml(stencil.$$truncate(" ++
      "!(opt_data.user.name == 'it\\'s == (x)') == -1.5, 3, false))") := by
  decide +kernel

theorem reads_printValue_cut :
    nestedExpr.isPlain ∧
    (∀ p ∈ cutChain, Registry.full.resolve p.1 = .ok p.2 ∧ p.1.args.all Expr.isPlain) ∧
    (∃ f, (dialect true).expr 0 nestedExpr = .ok f ∧
      ∀ tree, Reads f.text tree ↔ tree = .ofExpr nestedExpr) ∧
    ∃ f, (dialect true).printValue .full 0 nestedExpr (cutChain.map Prod.fst) = .ok f ∧
      ∀ tree, Reads f.text tree ↔ tree = (Expression.ofExpr nestedExpr).printed cutChain := by
  have hplain : nestedExpr.isPlain := by decide +kernel
  have hchain : ∀ p ∈ cutChain,
      Registry.full.resolve p.1 = .ok p.2 ∧ p.1.args.all Expr.isPlain := by
    intro p hp
    simp only [cutChain, List.mem_cons, List.not_mem_nil, or_false] at hp
    rcases hp with rfl | rfl <;> exact ⟨rfl, by decide +kernel⟩
  exact ⟨hplain, hchain, reads_printValue true 0 hplain hchain⟩

end JavaScript

end TemplateLang
