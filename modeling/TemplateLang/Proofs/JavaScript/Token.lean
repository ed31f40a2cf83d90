import TemplateLang.Json.Token
import TemplateLang.Proofs.Escaping.EscapedText
import TemplateLang.Proofs.Number.SourceText
import TemplateLang.Proofs.Text.Identifier
import TemplateLang.Proofs.Text.Segments
import TemplateLang.Target.JavaScript

/-! The tokens of JavaScript expressions, as far as generated expressions use them. The longest
token is taken, so a sign that would begin another operator is not a token here, and a number
ends where no letter, digit or point follows. A text has at most one list of tokens. -/

namespace TemplateLang.JavaScript

inductive Token where
  | word (s : String)
  | string (s : String)
  | number (text : String)
  | dot
  | comma
  | openParen
  | closeParen
  | bang
  | equal
  | minus
deriving DecidableEq

namespace Token

def isBlank (c : Char) : Bool := c = ' ' || c = '\t' || c = '\n' || c = '\r'

/-- Characters that end a line, which a string literal cannot contain. -/
def isLineEnd (c : Char) : Bool := c = '\n' || c = '\r'

/-- The character that a one-letter escape names; a letter without a meaning of its own names
itself. -/
def escaped? : Char → Option Char
  | 'b' => some '\x08'
  | 'f' => some '\x0c'
  | 'n' => some '\n'
  | 'r' => some '\r'
  | 't' => some '\t'
  | 'v' => some '\x0b'
  | c => if c = 'x' || c = 'u' || c.isDigit || isLineEnd c then none else some c

/-- The character of a code point that is not half of a pair. -/
def codePoint? (n : ℕ) : Option Char := if n.isValidChar then some (Char.ofNat n) else none

/-- The characters of a string literal up to its closing quote, after those in `taken`, last
first. -/
def string? : List Char → List Char → Option (List Char × List Char)
  | '\'' :: rest, taken => some (taken.reverse, rest)
  | '\\' :: 'x' :: a :: b :: rest, taken =>
    match Json.Token.hexValue? a, Json.Token.hexValue? b with
    | some a, some b => string? rest (Char.ofNat (a * 16 + b) :: taken)
    | _, _ => none
  | '\\' :: 'u' :: a :: b :: c :: d :: rest, taken =>
    match Json.Token.hexValue? a, Json.Token.hexValue? b, Json.Token.hexValue? c,
      Json.Token.hexValue? d with
    | some a, some b, some c, some d =>
      match codePoint? (((a * 16 + b) * 16 + c) * 16 + d) with
      | some c => string? rest (c :: taken)
      | none => none
    | _, _, _, _ => none
  | '\\' :: c :: rest, taken =>
    match escaped? c with
    | some c => string? rest (c :: taken)
    | none => none
  | c :: rest, taken => if isLineEnd c then none else string? rest (c :: taken)
  | [], _ => none

/-- A point and the digits behind it, if there is a point. -/
def fraction : List Char → List Char × List Char
  | '.' :: rest => ('.' :: rest.takeWhile Char.isDigit, rest.dropWhile Char.isDigit)
  | rest => ([], rest)

/-- The number at the front of a text that begins with a digit. -/
def number? (text : List Char) : Option (Token × List Char) :=
  let whole := text.takeWhile Char.isDigit
  let (fraction, rest) := fraction (text.dropWhile Char.isDigit)
  if (whole.head? = some '0' ∧ whole ≠ ['0']) ∨ rest.head?.any Text.isWordChar then none
  else some (.number (String.ofList (whole ++ fraction)), rest)

/-- A sign that does not begin a longer operator. -/
def punctuator? : Char → List Char → Option (Token × List Char)
  | '.', rest => if rest.head?.any Char.isDigit then none else some (.dot, rest)
  | ',', rest => some (.comma, rest)
  | '(', rest => some (.openParen, rest)
  | ')', rest => some (.closeParen, rest)
  | '!', rest => if rest.head? = some '=' then none else some (.bang, rest)
  | '-', rest =>
    if rest.head? = some '-' ∨ rest.head? = some '=' then none else some (.minus, rest)
  | '=', '=' :: rest => if rest.head? = some '=' then none else some (.equal, rest)
  | '\'', rest => (string? rest []).map fun (s, rest) => (.string (String.ofList s), rest)
  | _, _ => none

/-- The token at the front of a text. -/
def take? : List Char → Option (Token × List Char)
  | [] => none
  | c :: rest =>
    if Text.isLetter c then
      some (.word (String.ofList (c :: rest.takeWhile Text.isWordChar)),
        rest.dropWhile Text.isWordChar)
    else if c.isDigit then number? (c :: rest)
    else punctuator? c rest

end Token

open Token

/-- The text consists of the tokens, with blanks between them. -/
inductive Lexes : List Char → List Token → Prop
  | nil : Lexes [] []
  | blank {c : Char} {rest : List Char} {tokens : List Token} :
      isBlank c → Lexes rest tokens → Lexes (c :: rest) tokens
  | token {text : List Char} (rest : List Char) {token : Token} {tokens : List Token} :
      take? text = some (token, rest) → Lexes rest tokens → Lexes text (token :: tokens)

variable {text rest : List Char} {tokens more : List Token} {c : Char}

theorem take?_blank (h : isBlank c) : take? (c :: rest) = none := by
  simp only [isBlank, Bool.or_eq_true, decide_eq_true_eq] at h
  rcases h with ((rfl | rfl) | rfl) | rfl <;> rfl

/-- A text has at most one list of tokens. -/
theorem Lexes.unique (h : Lexes text tokens) (h' : Lexes text more) : tokens = more := by
  induction h generalizing more with
  | nil =>
    cases h' with
    | nil => rfl
    | token _ ht _ => cases ht
  | blank hc _ ih =>
    cases h' with
    | blank _ h' => exact ih h'
    | token _ ht _ => cases (take?_blank hc).symm.trans ht
  | token _ ht _ ih =>
    cases h' with
    | nil => cases ht
    | blank hc _ => cases (take?_blank hc).symm.trans ht
    | token _ ht' h' =>
      cases ht.symm.trans ht'
      rw [ih h']

/-! ### What a token does to the text behind it -/

/-- The text goes on with something that is not part of a word or a number. -/
def Boundary (rest : List Char) : Prop :=
  ∀ c, rest.head? = some c → Text.isWordChar c = false ∧ c ≠ '.'

theorem takeWhile_append_stop {p : Char → Bool} (h : ∀ c ∈ text, p c)
    (hstop : ∀ c, rest.head? = some c → p c = false) :
    (text ++ rest).takeWhile p = text ∧ (text ++ rest).dropWhile p = rest := by
  rw [List.takeWhile_append_of_pos h, List.dropWhile_append_of_pos h]
  cases rest with
  | nil => simp
  | cons c rest => simp [hstop c rfl]

theorem lexes_word (h : Text.isWord text)
    (hrest : ∀ c, rest.head? = some c → Text.isWordChar c = false) (hmore : Lexes rest more) :
    Lexes (text ++ rest) (.word (String.ofList text) :: more) := by
  obtain ⟨c, cs, rfl, hc, hcs⟩ := Text.isWord_iff.mp h
  obtain ⟨htake, hdrop⟩ := takeWhile_append_stop hcs hrest
  refine .token rest ?_ hmore
  rw [List.cons_append, take?, if_pos hc, htake, hdrop]

theorem number?_append {whole fraction : List Char} (h : IsDecimal whole fraction)
    (hrest : Boundary rest) :
    number? (whole ++ fraction ++ rest) =
      some (.number (String.ofList (whole ++ fraction)), rest) := by
  have hdigit : ∀ {c}, Text.isWordChar c = false → c.isDigit = false := fun hc => by
    simp only [Text.isWordChar, Bool.or_eq_false_iff] at hc
    exact hc.2
  have hstop : rest.head?.any Text.isWordChar = false := by
    cases rest with
    | nil => rfl
    | cons c rest => simpa using (hrest c rfl).1
  have hzero : ¬ (whole.head? = some '0' ∧ whole ≠ ['0']) := fun ⟨h0, hne⟩ =>
    hne (h.no_leading_zero h0)
  unfold number?
  rcases h.fraction with rfl | ⟨ds, rfl, _, hds⟩
  · obtain ⟨htake, hdrop⟩ := takeWhile_append_stop h.digits fun c hc => hdigit (hrest c hc).1
    have hfraction : Token.fraction rest = ([], rest) := by
      cases rest with
      | nil => rfl
      | cons c rest =>
        rw [Token.fraction]
        intro more hpoint
        cases hpoint
        exact (hrest '.' rfl).2 rfl
    simp [htake, hdrop, hfraction, hstop, hzero]
  · have hpoint : ∀ c, ('.' :: (ds ++ rest)).head? = some c → c.isDigit = false := by
      rintro c ⟨⟩
      rfl
    obtain ⟨htake, hdrop⟩ := takeWhile_append_stop h.digits hpoint
    obtain ⟨hds, hend⟩ := takeWhile_append_stop hds fun c hc => hdigit (hrest c hc).1
    simp [htake, hdrop, Token.fraction, hds, hend, hstop, hzero]

theorem lexes_number {whole fraction : List Char} (h : IsDecimal whole fraction)
    (hrest : Boundary rest) (hmore : Lexes rest more) :
    Lexes (whole ++ fraction ++ rest) (.number (String.ofList (whole ++ fraction)) :: more) := by
  refine .token rest ?_ hmore
  rw [← number?_append h hrest]
  obtain ⟨c, cs, rfl⟩ := List.exists_cons_of_ne_nil h.ne_nil
  have hc := h.digits c (List.mem_cons_self ..)
  show take? (c :: (cs ++ fraction ++ rest)) = number? (c :: (cs ++ fraction ++ rest))
  rw [take?, if_neg (by simp [Text.not_isLetter_of_isDigit hc]), if_pos hc]

/-- Reading the escape sequence of a character gives the character. -/
theorem string?_jsSequence (c : Char) (rest taken : List Char) :
    string? (Text.jsSequence c ++ rest) taken = string? rest (c :: taken) := by
  unfold Text.jsSequence
  split
  -- what is left is a character that stands for itself
  all_goals try rfl
  rename_i hback hquote _ hfeed hreturn _ _ _ _ _ _
  rw [List.singleton_append, string?, if_neg]
  · simpa [isLineEnd] using ⟨hfeed, hreturn⟩
  all_goals simp_all

theorem string?_substitute (s rest taken : List Char) :
    string? (s.flatMap Text.jsSequence ++ '\'' :: rest) taken =
      some (taken.reverse ++ s, rest) := by
  induction s generalizing taken with
  | nil => simp [string?]
  | cons c s ih => rw [List.flatMap_cons, List.append_assoc, string?_jsSequence, ih]; simp

theorem toList_literal (s : String) :
    (literal s).toList = '\'' :: (s.toList.flatMap Text.jsSequence ++ ['\'']) := by
  simp [literal, Text.escapeJsString, Escaping.toList_substitute]

theorem toList_literal_append (s : String) (rest : List Char) :
    (literal s).toList ++ rest = '\'' :: (s.toList.flatMap Text.jsSequence ++ '\'' :: rest) := by
  simp [toList_literal]

theorem lexes_literal (s : String) (hmore : Lexes rest more) :
    Lexes ((literal s).toList ++ rest) (.string s :: more) := by
  refine .token rest ?_ hmore
  rw [toList_literal_append]
  show (string? _ []).map _ = _
  rw [string?_substitute]
  simp

/-! ### Texts whose tokens do not depend on what follows -/

/-- The text has these tokens wherever it stands before a boundary. -/
def Scans (text : List Char) (tokens : List Token) : Prop :=
  ∀ rest more, Boundary rest → Lexes rest more → Lexes (text ++ rest) (tokens ++ more)

variable {text' : List Char} {tokens' : List Token}

theorem Scans.lexes (h : Scans text tokens) : Lexes text tokens := by
  simpa using h [] [] (fun c hc => by cases hc) .nil

theorem boundary_cons (h : Text.isWordChar c = false ∧ c ≠ '.') : Boundary (c :: rest) := by
  intro d hd
  cases hd
  exact h

/-- The tokens of names with dots between them. -/
def memberTokens (name : String) (path : List String) : List Token :=
  .word name :: path.flatMap fun s => [.dot, .word s]

theorem lexes_path {path : List String} (h : ∀ s ∈ path, Text.isIdentifier s)
    (hrest : ∀ c, rest.head? = some c → Text.isWordChar c = false) (hmore : Lexes rest more) :
    Lexes ((path.flatMap fun s => '.' :: s.toList) ++ rest)
      ((path.flatMap fun s => [.dot, .word s]) ++ more) := by
  induction path with
  | nil => exact hmore
  | cons s path ih =>
    have hword := h s (List.mem_cons_self ..)
    have hbehind := ih fun t ht => h t (List.mem_cons_of_mem _ ht)
    obtain ⟨c, cs, hs, hc, _⟩ := Text.isWord_iff.mp hword
    have hdigit : c.isDigit = false := by
      by_contra hd
      rw [Text.not_isLetter_of_isDigit (by simpa using hd)] at hc
      cases hc
    simp only [List.flatMap_cons, List.append_assoc, List.cons_append]
    refine .token (s.toList ++ ((path.flatMap fun s => '.' :: s.toList) ++ rest)) ?_ ?_
    · rw [hs]
      show (if c.isDigit then none else _) = _
      rw [if_neg (by simp [hdigit])]
    · rw [List.nil_append, ← String.ofList_toList (s := s), String.toList_ofList]
      refine lexes_word hword (fun d hd => ?_) hbehind
      cases path with
      | nil => exact hrest d hd
      | cons t path => cases hd; decide

theorem scans_join (name : String) (path : List String) (hname : Text.isIdentifier name)
    (h : ∀ s ∈ path, Text.isIdentifier s) :
    Scans (Text.join "." (name :: path)).toList (memberTokens name path) := by
  intro rest more hrest hmore
  rw [Text.toList_join_cons, List.append_assoc, memberTokens, ← String.ofList_toList (s := name),
    String.toList_ofList]
  refine lexes_word hname (fun c hc => ?_) (lexes_path h (fun c hc => (hrest c hc).1) hmore)
  cases path with
  | nil => exact (hrest c hc).1
  | cons s path => cases hc; decide

theorem scans_literal (s : String) : Scans (literal s).toList [.string s] :=
  fun _ _ _ hmore => lexes_literal s hmore

/-- A finite number is one token, or a minus and a token. -/
theorem scans_number {n : Number} (h : n.isFinite) :
    Scans n.sourceText.toList [.number n.sourceText] ∨
      ∃ text, n.sourceText = "-" ++ text ∧ Scans n.sourceText.toList [.minus, .number text] := by
  obtain ⟨negative, m, rfl⟩ : ∃ negative m, n = .finite negative m := by
    cases n with
    | finite negative m => exact ⟨negative, m, rfl⟩
    | nan => cases h
    | infinite => cases h
  obtain ⟨signed, whole, fraction, htext, hdecimal⟩ := Number.exists_decimal_sourceText negative m
  cases signed with
  | false =>
    refine .inl fun rest more hrest hmore => ?_
    have hsource := String.ofList_toList (s := (Number.finite negative m).sourceText)
    rw [htext] at hsource
    rw [← hsource, String.toList_ofList]
    show Lexes (whole ++ fraction ++ rest) _
    exact lexes_number hdecimal hrest hmore
  | true =>
    refine .inr ⟨String.ofList (whole ++ fraction), ?_, fun rest more hrest hmore => ?_⟩
    · rw [← String.toList_inj, htext]
      simp
    · rw [htext]
      refine .token (whole ++ fraction ++ rest) ?_ (lexes_number hdecimal hrest hmore)
      obtain ⟨c, cs, rfl⟩ := List.exists_cons_of_ne_nil hdecimal.ne_nil
      have hc := hdecimal.digits c (List.mem_cons_self ..)
      show (if some c = some '-' ∨ some c = some '=' then none else _) = _
      rw [if_neg]
      · simp
      · rintro (heq | heq) <;> cases heq <;> cases hc

/-- Before a text that does not begin with a comparison the exclamation mark is a token. -/
theorem Scans.bang {token : Token} (h : Scans text (token :: tokens)) (htoken : token ≠ .equal) :
    Scans ('!' :: text) (.bang :: token :: tokens) := by
  intro rest more hrest hmore
  have hlexes := h rest more hrest hmore
  have hne : (text ++ rest).head? ≠ some '=' := by
    intro hhead
    obtain ⟨cs, hcs⟩ := List.head?_eq_some_iff.mp hhead
    rw [hcs] at hlexes
    cases hlexes with
    | blank hc _ => cases hc
    | token _ htake _ =>
      change punctuator? '=' cs = _ at htake
      -- this sign begins a comparison or no token at all
      rcases cs with _ | ⟨d, cs⟩
      · cases htake
      · unfold punctuator? at htake
        split at htake <;> grind
  refine .token (text ++ rest) ?_ hlexes
  show (if (text ++ rest).head? = some '=' then none else some (Token.bang, text ++ rest)) = _
  rw [if_neg hne]

theorem scans_nil : Scans [] [] := fun _ _ _ hmore => hmore

/-- Texts with signs between them, of which the first is a boundary. -/
theorem Scans.joined {signs : List Char} {between : List Token} (h : Scans text tokens)
    (h' : Scans text' tokens') (hc : Text.isWordChar c = false ∧ c ≠ '.')
    (hsigns : ∀ {rest more}, Lexes rest more → Lexes (c :: (signs ++ rest)) (between ++ more)) :
    Scans (text ++ c :: (signs ++ text')) (tokens ++ (between ++ tokens')) := by
  intro rest more hrest hmore
  have hbehind := h _ _ (boundary_cons hc) (hsigns (h' rest more hrest hmore))
  simpa only [List.append_assoc, List.cons_append] using hbehind

theorem Scans.equal (h : Scans text tokens) (h' : Scans text' tokens') :
    Scans (text ++ ' ' :: (['=', '=', ' '] ++ text')) (tokens ++ ([.equal] ++ tokens')) :=
  h.joined h' (by decide) fun hmore => .blank rfl (.token _ rfl (.blank rfl hmore))

theorem Scans.openParen (h : Scans text tokens) (h' : Scans text' tokens') :
    Scans (text ++ '(' :: ([] ++ text')) (tokens ++ ([.openParen] ++ tokens')) :=
  h.joined h' (by decide) fun hmore => .token _ rfl hmore

theorem Scans.comma (h : Scans text tokens) (h' : Scans text' tokens') :
    Scans (text ++ ',' :: ([' '] ++ text')) (tokens ++ ([.comma] ++ tokens')) :=
  h.joined h' (by decide) fun hmore => .token _ rfl (.blank rfl hmore)

theorem Scans.closeParen (h : Scans text tokens) :
    Scans (text ++ ')' :: ([] ++ [])) (tokens ++ ([.closeParen] ++ [])) :=
  h.joined scans_nil (by decide) fun hmore => .token _ rfl hmore

end TemplateLang.JavaScript
