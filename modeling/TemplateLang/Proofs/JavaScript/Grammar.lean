import TemplateLang.Proofs.JavaScript.Token

/-! The grammar of the expressions that generated JavaScript uses: member access and calls bind
tightest, then prefix negation and the minus of a number, then the comparison, which groups to
the left. A reader with a stack of what is unfinished gets every expression back from its
tokens, so no list of tokens is the text of two expressions. -/

namespace TemplateLang.JavaScript

inductive Expression where
  | name (s : String)
  | member (object : Expression) (field : String)
  | string (s : String)
  | number (text : String)
  | bool (b : Bool)
  | not (e : Expression)
  | equal (left right : Expression)
  | call (callee : Expression) (args : List Expression)

namespace Expression

/-- What a word stands for by itself. -/
def ofWord : String → Expression
  | "true" => .bool true
  | "false" => .bool false
  | s => .name s

end Expression

/-- The forms of expressions by how tightly they bind. The form `arguments` is a call that is not
closed yet. -/
inductive Form where
  | primary
  | arguments
  | unary
  | equality

/-- The tokens are an expression of the form. -/
inductive Derives : Form → List Token → Expression → Prop
  | word (s : String) : Derives .primary [.word s] (.ofWord s)
  | string (s : String) : Derives .primary [.string s] (.string s)
  | number (text : String) : Derives .primary [.number text] (.number text)
  | group {ts : List Token} {e : Expression} :
      Derives .equality ts e → Derives .primary (.openParen :: (ts ++ [.closeParen])) e
  | member {ts : List Token} {e : Expression} (field : String) :
      Derives .primary ts e → Derives .primary (ts ++ [.dot, .word field]) (.member e field)
  | first {ts us : List Token} {callee e : Expression} :
      Derives .primary ts callee → Derives .equality us e →
        Derives .arguments (ts ++ .openParen :: us) (.call callee [e])
  | next {ts us : List Token} {callee e : Expression} {args : List Expression} :
      Derives .arguments ts (.call callee args) → Derives .equality us e →
        Derives .arguments (ts ++ .comma :: us) (.call callee (args ++ [e]))
  | call {ts : List Token} {e : Expression} :
      Derives .arguments ts e → Derives .primary (ts ++ [.closeParen]) e
  | negative (text : String) : Derives .unary [.minus, .number text] (.number ("-" ++ text))
  | not {ts : List Token} {e : Expression} :
      Derives .unary ts e → Derives .unary (.bang :: ts) (.not e)
  | ofPrimary {ts : List Token} {e : Expression} : Derives .primary ts e → Derives .unary ts e
  | equal {ts us : List Token} {left right : Expression} :
      Derives .equality ts left → Derives .unary us right →
        Derives .equality (ts ++ .equal :: us) (.equal left right)
  | ofUnary {ts : List Token} {e : Expression} : Derives .unary ts e → Derives .equality ts e

variable {form : Form} {ts us rest : List Token} {e left : Expression}

/-- No expression begins with a comparison. -/
theorem Derives.exists_head (h : Derives form ts e) : ∃ t more, ts = t :: more ∧ t ≠ .equal := by
  induction h with
  | word | string | number | negative | group | not => exact ⟨_, _, rfl, by simp⟩
  | member _ _ ih | call _ ih | first _ _ ih _ | next _ _ ih _ | equal _ _ ih _ =>
    obtain ⟨t, more, rfl, ht⟩ := ih
    exact ⟨t, _, rfl, ht⟩
  | ofPrimary _ ih | ofUnary _ ih => exact ih

/-! ### Reading -/

/-- What is unfinished around the expression that is read. -/
inductive Frame where
  | not
  | equal (left : Expression)
  | group
  | call (callee : Expression) (args : List Expression)

/-- Finishes the operators on top of the stack. -/
def reduce : List Frame → Expression → List Frame × Expression
  | .not :: stack, e => reduce stack (.not e)
  | .equal left :: stack, e => reduce stack (.equal left e)
  | stack, e => (stack, e)

/-- Reads tokens, with what is unfinished and the operand that stands before them, if any. -/
def parse : List Frame → Option Expression → List Token → Option Expression
  | stack, none, .word s :: ts => parse stack (some (.ofWord s)) ts
  | stack, none, .string s :: ts => parse stack (some (.string s)) ts
  | stack, none, .number text :: ts => parse stack (some (.number text)) ts
  | stack, none, .minus :: .number text :: ts => parse stack (some (.number ("-" ++ text))) ts
  | stack, none, .bang :: ts => parse (.not :: stack) none ts
  | stack, none, .openParen :: ts => parse (.group :: stack) none ts
  | stack, some e, .dot :: .word field :: ts => parse stack (some (.member e field)) ts
  | stack, some e, .openParen :: ts => parse (.call e [] :: stack) none ts
  | stack, some e, .equal :: ts =>
    let (stack, left) := reduce stack e
    parse (.equal left :: stack) none ts
  | stack, some e, .comma :: ts =>
    match reduce stack e with
    | (.call callee args :: stack, e) => parse (.call callee (args ++ [e]) :: stack) none ts
    | _ => none
  | stack, some e, .closeParen :: ts =>
    match reduce stack e with
    | (.group :: stack, e) => parse stack (some e) ts
    | (.call callee args :: stack, e) => parse stack (some (.call callee (args ++ [e]))) ts
    | _ => none
  | stack, some e, [] =>
    match reduce stack e with
    | ([], e) => some e
    | _ => none
  | _, _, _ => none

/-- The tokens do not go on with something that binds tighter than every operator. -/
def Stops (rest : List Token) : Prop := ∀ t, rest.head? = some t → t ≠ .dot ∧ t ≠ .openParen

/-- No operator is unfinished on top of the stack. -/
def Base (stack : List Frame) : Prop := ∀ e, reduce stack e = (stack, e)

/-- Where a tighter binding is ruled out, an unfinished operator takes the operand. -/
theorem parse_operator {frame : Frame} {stack : List Frame} {whole : Expression}
    (hreduce : reduce (frame :: stack) e = reduce stack whole) (hrest : Stops rest) :
    parse (frame :: stack) (some e) rest = parse stack (some whole) rest := by
  cases rest with
  | nil => simp only [parse, hreduce]
  | cons t rest =>
    have ht := hrest t rfl
    cases t with
    | dot => exact absurd rfl ht.1
    | openParen => exact absurd rfl ht.2
    | equal | comma | closeParen => simp only [parse, hreduce]
    | word | string | number | bang | minus => rfl

/-- What reading does with the tokens of an expression of a form. -/
def Settles : Form → List Token → Expression → Prop
  | .primary, ts, e => ∀ stack rest, parse stack none (ts ++ rest) = parse stack (some e) rest
  | .arguments, ts, e => ∃ callee args last, e = .call callee (args ++ [last]) ∧
      ∀ stack rest, Stops rest →
        parse stack none (ts ++ rest) = parse (.call callee args :: stack) (some last) rest
  | .unary, ts, e => ∀ stack rest, Stops rest →
      parse stack none (ts ++ rest) = parse stack (some e) rest
  | .equality, ts, e => ∀ stack rest, Base stack → Stops rest →
      parse stack none (ts ++ rest) = parse stack (some e) rest

theorem stops_cons {t : Token} (h : t ≠ .dot ∧ t ≠ .openParen) : Stops (t :: rest) := by
  intro u hu
  cases hu
  exact h

theorem Derives.settles (h : Derives form ts e) : Settles form ts e := by
  induction h with
  | word s => exact fun stack rest => rfl
  | string s => exact fun stack rest => rfl
  | number text => exact fun stack rest => rfl
  | group _ ih =>
    intro stack rest
    simp only [List.cons_append, List.append_assoc, List.nil_append, parse]
    rw [ih (.group :: stack) _ (fun _ => rfl) (stops_cons (by simp))]
    rfl
  | member field _ ih =>
    intro stack rest
    rw [List.append_assoc, ih]
    rfl
  | first _ _ ihCallee ih =>
    refine ⟨_, [], _, rfl, fun stack rest hrest => ?_⟩
    rw [List.append_assoc, ihCallee]
    exact ih _ rest (fun _ => rfl) hrest
  | next _ _ ihArgs ih =>
    obtain ⟨_, args, last, heq, hargs⟩ := ihArgs
    cases heq
    refine ⟨_, args ++ [last], _, rfl, fun stack rest hrest => ?_⟩
    rw [List.append_assoc, List.cons_append, hargs _ _ (stops_cons (by simp))]
    exact ih _ rest (fun _ => rfl) hrest
  | call _ ih =>
    obtain ⟨callee, args, last, rfl, hargs⟩ := ih
    intro stack rest
    rw [List.append_assoc, List.singleton_append, hargs _ _ (stops_cons (by simp))]
    rfl
  | negative text => exact fun stack rest _ => rfl
  | not _ ih =>
    intro stack rest hrest
    exact (ih (.not :: stack) rest hrest).trans (parse_operator rfl hrest)
  | ofPrimary _ ih => exact fun stack rest _ => ih stack rest
  | equal _ _ ihLeft ihRight =>
    intro stack rest hstack hrest
    -- no operator is open before the left side, which is thus complete where the sign stands
    rw [List.append_assoc, List.cons_append, ihLeft stack _ hstack (stops_cons (by simp))]
    simp only [parse, hstack _]
    exact (ihRight _ rest hrest).trans (parse_operator rfl hrest)
  | ofUnary _ ih => exact fun stack rest _ hrest => ih stack rest hrest

theorem Derives.parse_eq (h : Derives .equality ts e) : parse [] none ts = some e := by
  have hsettles := h.settles [] [] (fun _ => rfl) (fun t ht => by cases ht)
  rw [List.append_nil] at hsettles
  exact hsettles

/-- The text is that of the expression, as a whole. -/
def Reads (text : String) (e : Expression) : Prop :=
  ∃ tokens, Lexes text.toList tokens ∧ Derives .equality tokens e

/-- A text is that of one expression at most. -/
theorem Reads.unique {text : String} {e e' : Expression} (h : Reads text e) (h' : Reads text e') :
    e = e' := by
  obtain ⟨tokens, hlexes, hderives⟩ := h
  obtain ⟨tokens', hlexes', hderives'⟩ := h'
  cases hlexes.unique hlexes'
  exact Option.some.inj (hderives.parse_eq.symm.trans hderives'.parse_eq)

end TemplateLang.JavaScript
