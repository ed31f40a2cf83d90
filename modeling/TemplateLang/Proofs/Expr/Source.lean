import Mathlib.Data.List.Forall2
import TemplateLang.Expr.Basic
import TemplateLang.Proofs.Number.Equality
import TemplateLang.Proofs.Number.Reading
import TemplateLang.Proofs.Text.Identifier
import TemplateLang.Proofs.Text.Segments

/-! What the source of an expression tells. It is a row of operands with comparisons between them,
each operand a literal, data or a helper behind some negations. There are no parentheses, so the
source tells the operands, and how they are grouped only where no comparison is negated or
stands on the right of another. -/

namespace TemplateLang

/-! ### Equality -/

namespace Expr

/-- Equality of expressions, in which the zeros of both signs are equal. -/
def equals : Expr → Expr → Bool
  | .data path, .data path' => path = path'
  | .str s, .str s' => s = s'
  | .number n, .number n' => n.equals n'
  | .bool b, .bool b' => b = b'
  | .not e, .not e' => equals e e'
  | .eq left right, .eq left' right' => equals left left' && equals right right'
  | .bidi f, .bidi f' => f = f'
  | _, _ => false

/-- Paths are of identifiers and not empty, and numbers are finite. -/
def isRegular : Expr → Bool
  | .data path => !path.isEmpty && path.all Text.isIdentifier
  | .number n => n.isFinite
  | .not e => e.isRegular
  | .eq left right => left.isRegular && right.isRegular
  | _ => true

variable {e e' e'' : Expr}

theorem equals_comm (e e' : Expr) : e.equals e' = e'.equals e := by
  induction e generalizing e' with
  | not e ih => cases e' <;> simp [equals, ih]
  | eq left right ihl ihr => cases e' <;> simp [equals, ihl, ihr]
  | number n => cases e' <;> simp [equals, Number.equals_comm n]
  | _ => cases e' <;> simp [equals, eq_comm]

theorem equals_trans (h : e.equals e') (h' : e'.equals e'') : e.equals e'' := by
  induction e generalizing e' e'' with
  | not e ih =>
    cases e' <;> cases e'' <;> simp only [equals, Bool.false_eq_true] at h h' ⊢
    exact ih h h'
  | eq left right ihl ihr =>
    cases e' <;> cases e'' <;>
      simp only [equals, Bool.and_eq_true, Bool.false_eq_true] at h h' ⊢
    exact ⟨ihl h.1 h'.1, ihr h.2 h'.2⟩
  | number n =>
    cases e' <;> cases e'' <;> simp only [equals, Bool.false_eq_true] at h h' ⊢
    exact Number.equals_trans h h'
  | _ => cases e' <;> cases e'' <;> simp_all [equals]

end Expr

/-! ### Operands -/

/-- Neither a negation nor a comparison. -/
def Expr.isTerm : Expr → Bool
  | .not _ | .eq _ _ => false
  | _ => true

/-- What a comparison compares: a term behind negations. -/
structure Operand where
  negations : ℕ
  term : Expr

namespace Operand

def text (o : Operand) : List Char :=
  (List.replicate o.negations "not ".toList).flatten ++ o.term.source.toList

def IsRegular (o : Operand) : Prop := o.term.isTerm ∧ o.term.isRegular

/-- As many negations of equal terms. -/
def Same (o o' : Operand) : Prop := o.negations = o'.negations ∧ o.term.equals o'.term

/-- Operands with a comparison in front of each. -/
def laterText (rest : List Operand) : List Char := rest.flatMap fun o => " == ".toList ++ o.text

/-- The operands as a comparison writes them. -/
def rowText (o : Operand) (rest : List Operand) : List Char := o.text ++ laterText rest

end Operand

namespace Expr

variable {e e' : Expr}

/-- The operands of an expression, from left to right. A negation belongs to the first of them. -/
def operands : Expr → List Operand
  | .not e => match e.operands with
    | [] => []
    | o :: rest => ⟨o.negations + 1, o.term⟩ :: rest
  | .eq left right => left.operands ++ right.operands
  | e => [⟨0, e⟩]

/-- Expressions with the same operands in the same order, however they are grouped. -/
def SameOperands (e e' : Expr) : Prop := List.Forall₂ Operand.Same e.operands e'.operands

/-- The source of an expression is the row of its operands. -/
theorem exists_operands (e : Expr) :
    ∃ o rest, e.operands = o :: rest ∧ e.source.toList = o.rowText rest := by
  induction e with
  | not e ih =>
    obtain ⟨o, rest, hoperands, hsource⟩ := ih
    refine ⟨⟨o.negations + 1, o.term⟩, rest, by rw [operands, hoperands], ?_⟩
    rw [source, String.toList_append, hsource]
    simp [Operand.rowText, Operand.text, List.replicate_succ]
  | eq left right ihl ihr =>
    obtain ⟨o, rest, hoperands, hsource⟩ := ihl
    obtain ⟨o', rest', hoperands', hsource'⟩ := ihr
    refine ⟨o, rest ++ o' :: rest', by rw [operands, hoperands, hoperands']; rfl, ?_⟩
    rw [source, String.toList_append, String.toList_append, hsource, hsource']
    simp [Operand.rowText, Operand.laterText]
  | _ => exact ⟨⟨0, _⟩, [], rfl, by simp [Operand.rowText, Operand.laterText, Operand.text]⟩

theorem isRegular_of_mem_operands (h : e.isRegular) {o : Operand} (ho : o ∈ e.operands) :
    o.IsRegular := by
  induction e generalizing o with
  | not e ih =>
    obtain ⟨first, rest, hoperands, -⟩ := e.exists_operands
    rw [operands, hoperands] at ho
    rw [hoperands] at ih
    rcases List.mem_cons.mp ho with rfl | ho
    · exact ih (o := first) h (List.mem_cons_self ..)
    · exact ih h (List.mem_cons_of_mem _ ho)
  | eq left right ihl ihr =>
    rw [isRegular, Bool.and_eq_true] at h
    rcases List.mem_append.mp ho with ho | ho
    · exact ihl h.1 ho
    · exact ihr h.2 ho
  | _ =>
    obtain rfl := List.mem_singleton.mp ho
    exact ⟨rfl, h⟩

/-! ### Terms -/

/-- Which kind of term a source begins with. -/
def termSort (c : Char) : ℕ :=
  if c = '$' then 0 else if c = '\'' then 1 else if c.isDigit || c = '-' then 2
  else if c = 't' || c = 'f' then 3 else if c = 'b' then 4 else 5

def sort : Expr → ℕ
  | .data _ => 0
  | .str _ => 1
  | .number _ => 2
  | .bool _ => 3
  | .bidi _ => 4
  | .not _ | .eq _ _ => 5

theorem termSort_of_isDigit {c : Char} (h : c.isDigit) : termSort c = 2 ∧ c ≠ 'n' := by
  have hne : ∀ d : Char, d.isDigit = false → c ≠ d := by
    rintro d hd rfl
    rw [h] at hd
    cases hd
  simp [termSort, h, hne '$' (by decide), hne '\'' (by decide), hne 'n' (by decide)]

/-- The first character tells the kind of a term. -/
theorem exists_head (h : e.isTerm) (hr : e.isRegular) :
    ∃ c cs, e.source.toList = c :: cs ∧ termSort c = e.sort ∧ c ≠ 'n' := by
  cases e with
  | data path => exact ⟨'$', (Text.join "." path).toList, by simp [source], rfl, by decide⟩
  | str s =>
    exact ⟨'\'', s.toList.flatMap literalChar ++ ['\''], by simp [source], rfl, by decide⟩
  | number n =>
    cases n with
    | finite negative m =>
      obtain ⟨signed, whole, behind, htext, hdecimal⟩ :=
        Number.exists_decimal_sourceText negative m
      obtain ⟨c, cs, rfl⟩ := List.exists_cons_of_ne_nil hdecimal.ne_nil
      cases signed with
      | true => exact ⟨'-', c :: cs ++ behind, htext, rfl, by decide⟩
      | false =>
        have hc := termSort_of_isDigit (hdecimal.digits c (List.mem_cons_self ..))
        exact ⟨c, cs ++ behind, htext, hc⟩
    | _ => cases hr
  | bool b =>
    cases b with
    | true => exact ⟨'t', _, rfl, by decide, by decide⟩
    | false => exact ⟨'f', _, rfl, by decide, by decide⟩
  | bidi f =>
    refine ⟨'b', "idi".toList ++ (f.sourceName.toList.drop 4 ++ "()".toList), ?_, rfl, by decide⟩
    cases f <;> decide
  | _ => cases h

theorem isWordChar_of_mem {s : String} (h : Text.isIdentifier s) {c : Char} (hc : c ∈ s.toList) :
    Text.isWordChar c := by
  obtain ⟨d, rest, hs, hd, hrest⟩ := Text.isWord_iff.mp h
  rw [hs] at hc
  rcases List.mem_cons.mp hc with rfl | hc
  · simp [Text.isWordChar, hd]
  · exact hrest c hc

/-- Terms other than string literals have no blank. -/
theorem blank_not_mem (h : e.isTerm) (hr : e.isRegular) (hs : e.sort ≠ 1) :
    ' ' ∉ e.source.toList := by
  cases e with
  | data path =>
    rw [isRegular, Bool.and_eq_true, Bool.not_eq_true', List.isEmpty_eq_false_iff,
      List.all_eq_true] at hr
    obtain ⟨hne, hpath⟩ := hr
    obtain ⟨s, rest, rfl⟩ := List.exists_cons_of_ne_nil hne
    have hblank : ∀ t ∈ s :: rest, ' ' ∉ t.toList := fun t ht hmem =>
      absurd (isWordChar_of_mem (hpath t ht) hmem) (by decide)
    rw [source, String.toList_append, Text.toList_join_cons]
    simpa using hblank
  | str s => exact absurd rfl hs
  | number n =>
    intro hmem
    exact absurd (Number.mem_sourceText hmem) (by decide)
  | bool b => cases b <;> decide
  | bidi f => cases f <;> decide
  | _ => cases h

/-- The identifiers of a path are read back from its source. -/
theorem data_inj {path path' : List String} (hr : (data path).isRegular)
    (hr' : (data path').isRegular) (heq : (data path).source = (data path').source) :
    path = path' := by
  have hdots : ∀ {path : List String}, (data path).isRegular →
      Text.split '.' (Text.join "." path) = path := by
    intro path hr
    rw [isRegular, Bool.and_eq_true, Bool.not_eq_true', List.isEmpty_eq_false_iff,
      List.all_eq_true] at hr
    exact Text.split_join_of_not_mem (fun s hs hdot =>
      absurd (isWordChar_of_mem (hr.2 s hs) hdot) (by decide)) hr.1
  have hjoin : Text.join "." path = Text.join "." path' := by
    have htext := congrArg String.toList heq
    rw [source, source, String.toList_append, String.toList_append] at htext
    exact String.toList_inj.mp (List.append_cancel_left htext)
  rw [← hdots hr, ← hdots hr', hjoin]

/-- Terms of one kind, other than string literals, are equal when their sources are. -/
theorem equals_of_source_eq (h : e.isTerm) (hr : e.isRegular) (hr' : e'.isRegular)
    (hsorts : e.sort = e'.sort) (hs : e.sort ≠ 1) (heq : e.source = e'.source) :
    e.equals e' := by
  cases e with
  | data path =>
    cases e' with
    | data path' => exact decide_eq_true (data_inj hr hr' heq)
    | _ => simp [sort] at hsorts
  | str s => exact absurd rfl hs
  | number n =>
    cases e' with
    | number n' => exact (Number.sourceText_eq_iff hr hr').mp heq
    | _ => simp [sort] at hsorts
  | bool b =>
    cases e' with
    | bool b' => cases b <;> cases b' <;> first | rfl | exact absurd heq (by decide)
    | _ => simp [sort] at hsorts
  | bidi f =>
    cases e' with
    | bidi f' => cases f <;> cases f' <;> first | rfl | exact absurd heq (by decide)
    | _ => simp [sort] at hsorts
  | _ => cases h

/-- Equal terms have the same source. -/
theorem source_eq_of_equals (h : e.isTerm) (hr : e.isRegular) (hr' : e'.isRegular)
    (heq : e.equals e') : e.source = e'.source := by
  cases e with
  | number n =>
    cases e' with
    | number n' => exact (Number.sourceText_eq_iff hr hr').mpr heq
    | _ => cases heq
  | not _ => cases h
  | eq _ _ => cases h
  | _ => cases e' <;> simp_all [equals]

/-- A quote within a literal is behind a backslash. -/
theorem exists_literalChar (c : Char) : ∃ d ds, literalChar c = d :: ds ∧ d ≠ '\'' := by
  unfold literalChar
  split
  · exact ⟨_, _, rfl, by decide⟩
  · exact ⟨_, _, rfl, by decide⟩
  · next hquote => exact ⟨c, [], rfl, hquote⟩

theorem literalChar_append_inj {c d : Char} {x y : List Char}
    (h : literalChar c ++ x = literalChar d ++ y) : c = d ∧ x = y := by
  unfold literalChar at h
  split at h <;> split at h <;> grind

/-- A string literal ends where it says. -/
theorem literal_append_inj {cs cs' t t' : List Char}
    (h : cs.flatMap literalChar ++ '\'' :: t = cs'.flatMap literalChar ++ '\'' :: t') :
    cs = cs' ∧ t = t' := by
  induction cs generalizing cs' with
  | nil =>
    cases cs' with
    | nil => exact ⟨rfl, (List.cons.inj h).2⟩
    | cons c cs' =>
      obtain ⟨d, ds, hc, hd⟩ := exists_literalChar c
      rw [List.flatMap_cons, hc] at h
      exact absurd (List.cons.inj h).1.symm hd
  | cons c cs ih =>
    cases cs' with
    | nil =>
      obtain ⟨d, ds, hc, hd⟩ := exists_literalChar c
      rw [List.flatMap_cons, hc] at h
      exact absurd (List.cons.inj h).1 hd
    | cons c' cs' =>
      rw [List.flatMap_cons, List.flatMap_cons, List.append_assoc, List.append_assoc] at h
      obtain ⟨rfl, hrest⟩ := literalChar_append_inj h
      obtain ⟨rfl, ht⟩ := ih hrest
      exact ⟨rfl, ht⟩

/-- Where sources that begin with terms agree, the terms are equal. -/
theorem source_append_inj (h : e.isTerm) (hr : e.isRegular) (h' : e'.isTerm)
    (hr' : e'.isRegular) {t t' : List Char} (ht : ∀ c ∈ t.head?, c = ' ')
    (ht' : ∀ c ∈ t'.head?, c = ' ') (heq : e.source.toList ++ t = e'.source.toList ++ t') :
    e.equals e' ∧ t = t' := by
  obtain ⟨c, cs, hsource, hsort, -⟩ := exists_head h hr
  obtain ⟨c', cs', hsource', hsort', -⟩ := exists_head h' hr'
  have hc : c = c' := by
    rw [hsource, hsource'] at heq
    exact (List.cons.inj heq).1
  have hsorts : e.sort = e'.sort := by rw [← hsort, ← hsort', hc]
  -- A string literal may have blanks, but its end is told by its quote; no other term has one.
  by_cases hs : e.sort = 1
  · cases e with
    | str s =>
      cases e' with
      | str s' =>
        have hliteral : s.toList.flatMap literalChar ++ '\'' :: t =
            s'.toList.flatMap literalChar ++ '\'' :: t' := by
          simpa [source] using heq
        obtain ⟨hs, rfl⟩ := literal_append_inj hliteral
        exact ⟨decide_eq_true (String.toList_inj.mp hs), rfl⟩
      | _ => simp [sort] at hsorts
    | _ => simp [sort] at hs
  · obtain ⟨hsources, rfl⟩ := Text.append_inj_of_not_mem (blank_not_mem h hr hs)
      (blank_not_mem h' hr' (hsorts ▸ hs)) ht ht' heq
    exact ⟨equals_of_source_eq h hr hr' hsorts hs (String.toList_inj.mp hsources), rfl⟩

end Expr

/-! ### Rows -/

namespace Operand

variable {o o' : Operand}

/-- Where rows agree, their first operands are the same. -/
theorem text_append_inj (h : o.IsRegular) (h' : o'.IsRegular) {t t' : List Char}
    (ht : ∀ c ∈ t.head?, c = ' ') (ht' : ∀ c ∈ t'.head?, c = ' ')
    (heq : o.text ++ t = o'.text ++ t') : o.Same o' ∧ t = t' := by
  obtain ⟨k, e⟩ := o
  obtain ⟨k', e'⟩ := o'
  obtain ⟨c, cs, hsource, -, hc⟩ := Expr.exists_head (e := e) h.1 h.2
  obtain ⟨c', cs', hsource', -, hc'⟩ := Expr.exists_head (e := e') h'.1 h'.2
  induction k generalizing k' with
  | zero =>
    cases k' with
    | zero =>
      obtain ⟨hequals, rfl⟩ :=
        Expr.source_append_inj h.1 h.2 h'.1 h'.2 ht ht' (by simpa [text] using heq)
      exact ⟨⟨rfl, hequals⟩, rfl⟩
    | succ k' =>
      rw [text, text, hsource] at heq
      exact absurd (List.cons.inj heq).1 hc
  | succ k ih =>
    cases k' with
    | zero =>
      rw [text, text, hsource'] at heq
      exact absurd (List.cons.inj heq).1.symm hc'
    | succ k' =>
      have hrest : text ⟨k, e⟩ ++ t = text ⟨k', e'⟩ ++ t' := by
        simpa [text, List.replicate_succ] using heq
      obtain ⟨hsame, rfl⟩ := ih h k' h' hrest
      exact ⟨⟨congrArg (· + 1) hsame.1, hsame.2⟩, rfl⟩

theorem head?_laterText (rest : List Operand) : ∀ c ∈ (laterText rest).head?, c = ' ' := by
  cases rest <;> simp [laterText]

theorem rowText_inj {rest rest' : List Operand} (h : ∀ x ∈ o :: rest, x.IsRegular)
    (h' : ∀ x ∈ o' :: rest', x.IsRegular) (heq : o.rowText rest = o'.rowText rest') :
    List.Forall₂ Same (o :: rest) (o' :: rest') := by
  induction rest generalizing o o' rest' with
  | nil =>
    obtain ⟨hsame, hrest⟩ := text_append_inj (h o (List.mem_cons_self ..))
      (h' o' (List.mem_cons_self ..)) (head?_laterText []) (head?_laterText rest') heq
    cases rest' with
    | nil => exact .cons hsame .nil
    | cons next rest' => simp [laterText] at hrest
  | cons later rest ih =>
    obtain ⟨hsame, hrest⟩ := text_append_inj (h o (List.mem_cons_self ..))
      (h' o' (List.mem_cons_self ..)) (head?_laterText (later :: rest)) (head?_laterText rest') heq
    cases rest' with
    | nil => simp [laterText] at hrest
    | cons later' rest' =>
      have hrows : later.rowText rest = later'.rowText rest' := by
        simpa [rowText, laterText] using hrest
      exact .cons hsame (ih (fun x hx => h x (List.mem_cons_of_mem _ hx))
        (fun x hx => h' x (List.mem_cons_of_mem _ hx)) hrows)

/-- The same operands have the same texts. -/
theorem Same.text_eq (hsame : o.Same o') (h : o.IsRegular) (h' : o'.IsRegular) :
    o.text = o'.text := by
  rw [text, text, hsame.1, Expr.source_eq_of_equals h.1 h.2 h'.2 hsame.2]

theorem laterText_eq {rest rest' : List Operand} (hsame : List.Forall₂ Same rest rest')
    (h : ∀ x ∈ rest, x.IsRegular) (h' : ∀ x ∈ rest', x.IsRegular) :
    laterText rest = laterText rest' := by
  induction hsame with
  | nil => rfl
  | cons hfirst _ ih =>
    rw [laterText, laterText] at ih ⊢
    rw [List.flatMap_cons, List.flatMap_cons,
      hfirst.text_eq (h _ (List.mem_cons_self ..)) (h' _ (List.mem_cons_self ..)),
      ih (fun x hx => h x (List.mem_cons_of_mem _ hx))
        fun x hx => h' x (List.mem_cons_of_mem _ hx)]

end Operand

namespace Expr

variable {e e' : Expr}

/-- The source of an expression tells its operands, and nothing more. -/
theorem source_eq_iff (h : e.isRegular) (h' : e'.isRegular) :
    e.source = e'.source ↔ e.SameOperands e' := by
  obtain ⟨o, rest, hoperands, hsource⟩ := e.exists_operands
  obtain ⟨o', rest', hoperands', hsource'⟩ := e'.exists_operands
  rw [← String.toList_inj, hsource, hsource', SameOperands, hoperands, hoperands']
  have hregular : ∀ x ∈ o :: rest, x.IsRegular := fun x hx =>
    isRegular_of_mem_operands h (hoperands ▸ hx)
  have hregular' : ∀ x ∈ o' :: rest', x.IsRegular := fun x hx =>
    isRegular_of_mem_operands h' (hoperands' ▸ hx)
  constructor
  · exact Operand.rowText_inj hregular hregular'
  · intro hsame
    cases hsame with
    | cons hfirst hrest =>
      rw [Operand.rowText, Operand.rowText,
        hfirst.text_eq (hregular o (List.mem_cons_self ..)) (hregular' o' (List.mem_cons_self ..)),
        Operand.laterText_eq hrest (fun x hx => hregular x (List.mem_cons_of_mem _ hx))
          fun x hx => hregular' x (List.mem_cons_of_mem _ hx)]

/-! ### Left-nested comparisons -/

/-- Without comparisons. -/
def isUnary : Expr → Bool
  | .not e => e.isUnary
  | .eq _ _ => false
  | _ => true

/-- No comparison is negated or stands on the right of another, so that comparisons are grouped
from left to right. -/
def isLeftNested : Expr → Bool
  | .not e => e.isUnary
  | .eq left right => left.isLeftNested && right.isUnary
  | _ => true

theorem exists_operands_of_isUnary (h : e.isUnary) : ∃ o, e.operands = [o] := by
  induction e with
  | not e ih =>
    obtain ⟨o, hoperands⟩ := ih h
    exact ⟨_, by rw [operands, hoperands]⟩
  | eq => cases h
  | _ => exact ⟨_, rfl⟩

theorem equals_of_isUnary (h : e.isUnary) (h' : e'.isUnary) (hsame : e.SameOperands e') :
    e.equals e' := by
  induction e generalizing e' with
  | not e ih =>
    obtain ⟨o, hoperands⟩ := exists_operands_of_isUnary (e := e) h
    cases e' with
    | not e' =>
      obtain ⟨o', hoperands'⟩ := exists_operands_of_isUnary (e := e') h'
      simp only [SameOperands, operands, hoperands, hoperands', List.forall₂_cons,
        Operand.Same, Nat.add_right_cancel_iff] at hsame
      exact ih h h' (by
        rw [SameOperands, hoperands, hoperands']
        exact .cons hsame.1 .nil)
    | eq => cases h'
    | _ => simp [SameOperands, operands, hoperands, Operand.Same] at hsame
  | eq => cases h
  | _ =>
    cases e' with
    | not e' =>
      obtain ⟨o', hoperands'⟩ := exists_operands_of_isUnary (e := e') h'
      simp [SameOperands, operands, hoperands', Operand.Same] at hsame
    | eq => cases h'
    | _ => simpa [SameOperands, operands, Operand.Same] using hsame

theorem length_operands_eq_one_iff (h : e.isLeftNested) :
    e.operands.length = 1 ↔ e.isUnary := by
  constructor
  · intro hone
    cases e with
    | eq left right =>
      obtain ⟨o, rest, hleft, -⟩ := left.exists_operands
      obtain ⟨o', rest', hright, -⟩ := right.exists_operands
      simp [operands, hleft, hright] at hone
    | _ => exact h
  · intro hunary
    obtain ⟨o, hoperands⟩ := exists_operands_of_isUnary hunary
    rw [hoperands, List.length_singleton]

theorem isUnary_iff (h : e.isLeftNested) (h' : e'.isLeftNested) (hsame : e.SameOperands e') :
    e.isUnary ↔ e'.isUnary := by
  rw [← length_operands_eq_one_iff h, ← length_operands_eq_one_iff h', hsame.length_eq]

/-- Of left-nested expressions the operands tell everything. -/
theorem equals_of_isLeftNested (h : e.isLeftNested) (h' : e'.isLeftNested)
    (hsame : e.SameOperands e') : e.equals e' := by
  induction e generalizing e' with
  | eq left right ih =>
    cases e' with
    | eq left' right' =>
      rw [isLeftNested, Bool.and_eq_true] at h h'
      obtain ⟨o, hright⟩ := exists_operands_of_isUnary h.2
      obtain ⟨o', hright'⟩ := exists_operands_of_isUnary h'.2
      -- The last operands are those on the right, so the rows are compared from there.
      have hreverse := List.forall₂_reverse_iff.mpr hsame
      simp only [operands, hright, hright', List.reverse_append, List.reverse_singleton,
        List.singleton_append, List.forall₂_cons, List.forall₂_reverse_iff] at hreverse
      have hlefts : left.SameOperands left' := hreverse.2
      rw [equals, Bool.and_eq_true]
      refine ⟨ih h.1 h'.1 hlefts, equals_of_isUnary h.2 h'.2 ?_⟩
      rw [SameOperands, hright, hright']
      exact .cons hreverse.1 .nil
    | _ => exact absurd ((isUnary_iff h h' hsame).mpr h') (by simp [isUnary])
  | _ => exact equals_of_isUnary h ((isUnary_iff h h' hsame).mp h) hsame

end Expr

end TemplateLang
