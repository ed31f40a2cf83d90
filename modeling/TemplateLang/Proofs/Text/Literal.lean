import Mathlib.Data.List.DropRight
import TemplateLang.Json.Token
import TemplateLang.Proofs.Escaping.EscapedText

/-! Text between quotes. A literal is written character by character, each as itself or as an escape
sequence. A reader that takes one of these at a time therefore stands between two characters
of the text after each of them, and no backslash or quote of the text can move it. -/

namespace TemplateLang.Literal

/-! ### What stays between the quotes -/

/-- Whether a character behind `before` is escaped: an odd number of backslashes stands directly
in front of it. -/
def IsEscaped (before : List Char) : Prop :=
  (before.rtakeWhile (· = '\\')).length % 2 = 1

/-- A text that has none of the barred characters, no quote that is not escaped, and no end that
escapes the quote behind it. -/
structure Confined (quotes barred body : List Char) : Prop where
  not_mem : ∀ c ∈ barred, c ∉ body
  isEscaped : ∀ before q after, q ∈ quotes → body = before ++ q :: after → IsEscaped before
  not_isEscaped : ¬ IsEscaped body

def IsPlain (quotes barred : List Char) (c : Char) : Prop :=
  c ≠ '\\' ∧ c ∉ quotes ∧ c ∉ barred

instance (quotes barred : List Char) (c : Char) : Decidable (IsPlain quotes barred c) :=
  inferInstanceAs (Decidable (c ≠ '\\' ∧ c ∉ quotes ∧ c ∉ barred))

/-- What may stand for one character: the character, or a backslash with another character and
plain ones. -/
inductive IsUnit (quotes barred : List Char) : List Char → Prop
  | plain {c : Char} : IsPlain quotes barred c → IsUnit quotes barred [c]
  | escape {c : Char} {rest : List Char} : c ∉ barred → (∀ d ∈ rest, IsPlain quotes barred d) →
      IsUnit quotes barred ('\\' :: c :: rest)

variable {quotes barred before u : List Char} {c q : Char}

theorem isEscaped_concat : IsEscaped (before ++ [c]) ↔ c = '\\' ∧ ¬ IsEscaped before := by
  rw [IsEscaped, IsEscaped, List.rtakeWhile_concat]
  by_cases hc : c = '\\' <;> simp [hc]
  omega

theorem not_isEscaped_plain {rest : List Char} (hrest : ∀ d ∈ rest, IsPlain quotes barred d)
    (h : ¬ IsEscaped before) : ¬ IsEscaped (before ++ rest) := by
  induction rest using List.reverseRecOn with
  | nil => rwa [List.append_nil]
  | append_singleton rest d _ =>
    rw [← List.append_assoc, isEscaped_concat]
    exact fun hd => (hrest d (by simp)).1 hd.1

namespace IsUnit

/-- Behind a unit no character is escaped. -/
theorem not_isEscaped (hu : IsUnit quotes barred u) (h : ¬ IsEscaped before) :
    ¬ IsEscaped (before ++ u) := by
  cases hu with
  | plain hc => exact not_isEscaped_plain (by simpa using hc) h
  | @escape c rest _ hrest =>
    have hpair : before ++ '\\' :: c :: rest = before ++ ['\\'] ++ [c] ++ rest := by simp
    rw [hpair]
    refine not_isEscaped_plain hrest ?_
    rw [isEscaped_concat, isEscaped_concat]
    exact fun hc => hc.2 ⟨rfl, h⟩

theorem not_mem (hu : IsUnit quotes barred u) (hback : '\\' ∉ barred) (hc : c ∈ barred) :
    c ∉ u := by
  cases hu with
  | plain hd =>
    rw [List.mem_singleton]
    rintro rfl
    exact hd.2.2 hc
  | escape hd hrest =>
    rw [List.mem_cons, List.mem_cons, not_or, not_or]
    exact ⟨fun h => hback (h ▸ hc), fun h => hd (h ▸ hc), fun h => (hrest c h).2.2 hc⟩

/-- A quote is the character behind the backslash. -/
theorem eq_of_quote {x y : List Char} (hu : IsUnit quotes barred u) (hback : '\\' ∉ quotes)
    (hq : q ∈ quotes) (heq : u = x ++ q :: y) : x = ['\\'] := by
  cases hu with
  | plain hc =>
    obtain rfl : _ = q := by
      have hmem : q ∈ x ++ q :: y := by simp
      simpa [← heq, eq_comm] using hmem
    exact absurd hq hc.2.1
  | escape _ hrest =>
    match x with
    | [] =>
      obtain ⟨rfl, -⟩ := List.cons.inj heq
      exact absurd hq hback
    | [a] =>
      obtain ⟨rfl, -⟩ := List.cons.inj heq
      rfl
    | a :: b :: x =>
      have htail := (List.cons.inj (List.cons.inj heq).2).2
      exact absurd hq (hrest q (by simp [htail])).2.1

theorem exists_head (hu : IsUnit quotes barred u) (hback : '\\' ∉ quotes) (hq : q ∈ quotes) :
    ∃ c rest, u = c :: rest ∧ c ≠ q := by
  cases hu with
  | plain hc => exact ⟨_, _, rfl, fun h => hc.2.1 (h ▸ hq)⟩
  | escape => exact ⟨_, _, rfl, fun h => hback (h ▸ hq)⟩

end IsUnit

section Writing

variable {f : Char → List Char}

theorem not_isEscaped_flatMap (h : ∀ c, IsUnit quotes barred (f c)) (s : List Char) :
    ¬ IsEscaped (s.flatMap f) := by
  induction s using List.reverseRecOn with
  | nil => simp [IsEscaped]
  | append_singleton s c ih =>
    rw [List.flatMap_append, List.flatMap_singleton]
    exact (h c).not_isEscaped ih

/-- A text whose characters are written as units stays between the quotes. -/
theorem confined_flatMap (h : ∀ c, IsUnit quotes barred (f c)) (hquotes : '\\' ∉ quotes)
    (hbarred : '\\' ∉ barred) (s : List Char) : Confined quotes barred (s.flatMap f) where
  not_mem d hd hmem := by
    obtain ⟨c, -, hc⟩ := List.mem_flatMap.mp hmem
    exact (h c).not_mem hbarred hd hc
  isEscaped before q after hq hbody := by
    obtain ⟨p, c, r, x, y, rfl, hc, rfl, -⟩ := Escaping.exists_of_flatMap_eq hbody
    rw [(h c).eq_of_quote hquotes hq hc, isEscaped_concat]
    exact ⟨rfl, not_isEscaped_flatMap h p⟩
  not_isEscaped := not_isEscaped_flatMap h s

end Writing

/-! ### Reading back -/

/-- The number that hexadecimal digits write. -/
def hexNumber? (digits : List Char) : Option ℕ :=
  digits.foldlM (fun n c => (Json.Token.hexValue? c).map (n * 16 + ·)) 0

/-- Characters are not halves of pairs. -/
theorem pairSurrogates?_toNat (s taken : List Char) :
    Json.Token.pairSurrogates? (s.map Char.toNat) taken = some (taken.reverse ++ s) := by
  have hhalf : ∀ c : Char, Json.Token.isTrailingSurrogate c.toNat = false ∧
      Json.Token.isLeadingSurrogate c.toNat = false := by
    intro c
    have hvalid : c.toNat < 0xd800 ∨ 0xdfff < c.toNat ∧ c.toNat < 0x110000 := c.valid
    simp only [Json.Token.isTrailingSurrogate, Json.Token.isLeadingSurrogate,
      Bool.and_eq_false_iff, decide_eq_false_iff_not]
    omega
  induction s generalizing taken with
  | nil => simp [Json.Token.pairSurrogates?]
  | cons c s ih =>
    obtain ⟨htrailing, hleading⟩ := hhalf c
    cases s with
    | nil => simp [Json.Token.pairSurrogates?, htrailing, hleading]
    | cons d s =>
      rw [List.map_cons, List.map_cons, Json.Token.pairSurrogates?, htrailing, hleading]
      simpa using ih (c :: taken)

variable {α : Type} [DecidableEq α]

/-- Reads elements, each of at least one symbol, up to the closing quote: their code points,
surrogates not yet paired, and what follows the quote. -/
def contents? (quote : α) (element? : List α → Option (List ℕ × List α)) (text : List α) :
    Option (List ℕ × List α) :=
  if text.head? = some quote then some ([], text.tail)
  else match element? text with
    | some (codes, rest) =>
      if rest.length < text.length then
        (contents? quote element? rest).map fun (more, rest) => (codes ++ more, rest)
      else none
    | none => none
termination_by text.length

/-- Reads a literal at the front of a text: its value and what follows it. -/
def read? (quote : α) (element? : List α → Option (List ℕ × List α)) : List α →
    Option (String × List α)
  | [] => none
  | c :: text =>
    if c = quote then do
      let (codes, rest) ← contents? quote element? text
      let value ← Json.Token.pairSurrogates? codes []
      return (String.ofList value, rest)
    else none

/-- What `f` writes for one character is read as the character, whatever follows. -/
structure Reads (quote : α) (element? : List α → Option (List ℕ × List α)) (f : Char → List α) :
    Prop where
  exists_head : ∀ c, ∃ a rest, f c = a :: rest ∧ a ≠ quote
  element?_append : ∀ c rest, element? (f c ++ rest) = some ([c.toNat], rest)

namespace Reads

variable {quote : α} {element? : List α → Option (List ℕ × List α)} {f : Char → List α}

theorem contents?_flatMap (h : Reads quote element? f) (s : List Char) (rest : List α) :
    contents? quote element? (s.flatMap f ++ quote :: rest) = some (s.map Char.toNat, rest) := by
  induction s with
  | nil =>
    rw [contents?]
    simp
  | cons c s ih =>
    obtain ⟨a, more, hc, ha⟩ := h.exists_head c
    have helement := h.element?_append c (s.flatMap f ++ quote :: rest)
    rw [hc, List.cons_append] at helement
    have hlength : (s.flatMap f ++ quote :: rest).length <
        (a :: (more ++ (s.flatMap f ++ quote :: rest))).length := by
      simp only [List.length_cons, List.length_append]
      omega
    rw [List.flatMap_cons, List.append_assoc, hc, List.cons_append, contents?, helement,
      if_neg (by simpa using ha)]
    simp only [if_pos hlength, ih]
    rfl

/-- A literal that is written so is read as the text, and ends at its closing quote. -/
theorem read?_literal (h : Reads quote element? f) (s : List Char) (rest : List α) :
    read? quote element? (quote :: (s.flatMap f ++ quote :: rest)) =
      some (String.ofList s, rest) := by
  rw [read?, if_pos rfl, h.contents?_flatMap]
  simp [pairSurrogates?_toNat]

end Reads

end TemplateLang.Literal
