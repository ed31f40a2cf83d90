import TemplateLang.Proofs.Text.Literal
import TemplateLang.Target.Java

/-! String literals of Java. The text of a program is first freed of Unicode escapes, wherever they
stand; what is left is read by the escape sequences of string literals. A backslash begins a
Unicode escape only behind an even number of backslashes, and in the literal of a text no
such backslash has a `u` behind it. Text blocks, which three quotes open, are not read. -/

namespace TemplateLang.Java

open Literal

/-! ### Unicode escapes -/

/-- What stands in front of a place in a program text: an even or odd number of backslashes, or a
backslash that begins a Unicode escape and its `u`. -/
inductive Behind where
  | even
  | odd
  | marker

/-- The code points of a program text after its Unicode escapes are replaced, surrogates not yet
paired. An escape has one `u` or more and four digits. -/
def translate? : Behind → List Char → Option (List ℕ)
  | .marker, 'u' :: rest => translate? .marker rest
  | .marker, a :: b :: c :: d :: rest => do
    let unit ← hexNumber? [a, b, c, d]
    return unit :: (← translate? .even rest)
  | .marker, _ => none
  | .even, '\\' :: 'u' :: rest => translate? .marker rest
  | .even, '\\' :: rest => (translate? .odd rest).map ('\\'.toNat :: ·)
  | _, c :: rest => (translate? .even rest).map (c.toNat :: ·)
  | _, [] => some []

/-! ### Escape sequences -/

def isOctalDigit (code : ℕ) : Bool := '0'.toNat ≤ code && code ≤ '7'.toNat

/-- What stands for itself behind a backslash, or for a control or a space. -/
def escaped? : Char → Option ℕ
  | 'b' => some 0x8
  | 's' => some 0x20
  | 't' => some 0x9
  | 'n' => some 0xa
  | 'f' => some 0xc
  | 'r' => some 0xd
  | '"' => some 0x22
  | '\'' => some 0x27
  | '\\' => some 0x5c
  | _ => none

/-- The octal digits of an escape: three at most, and two if the first is above 3. -/
def octalDigits (codes : List ℕ) : List ℕ :=
  (codes.take (if codes.head?.any (· ≤ '3'.toNat) then 3 else 2)).takeWhile isOctalDigit

/-- Reads what stands behind a backslash. -/
def escape? (codes : List ℕ) : Option (List ℕ × List ℕ) :=
  match octalDigits codes, codes with
  | [], c :: rest => (escaped? (Char.ofNat c)).map fun code => ([code], rest)
  | [], [] => none
  | digits, _ =>
    some ([digits.foldl (fun n d => n * 8 + (d - '0'.toNat)) 0], codes.drop digits.length)

/-- Reads one character or escape sequence between quotes. -/
def element? : List ℕ → Option (List ℕ × List ℕ)
  | [] => none
  | c :: rest =>
    if c = '\\'.toNat then escape? rest
    else if c = '\n'.toNat ∨ c = '\r'.toNat then none
    else some ([c], rest)

/-- Reads a literal at the front of a program text: its value and the code points that follow. -/
def literal? (text : List Char) : Option (String × List ℕ) := do
  read? '"'.toNat element? (← translate? .even text)

/-! ### Literals of texts -/

theorem isUnit_literalChar (c : Char) : IsUnit ['"'] ['\n', '\r'] (literalChar c) := by
  unfold literalChar
  split
  all_goals try exact .escape (by decide) (by simp [IsPlain])
  refine .plain ?_
  simp_all [IsPlain]

theorem translate?_plain {c : Char} (hc : c ≠ '\\') (text : List Char) :
    translate? .even (c :: text) = (translate? .even text).map (c.toNat :: ·) := by
  rw [translate?.eq_6]
  all_goals simp [hc]

/-- The second of two backslashes begins no Unicode escape. -/
theorem translate?_escape {c : Char} (hc : c ≠ 'u') (text : List Char) :
    translate? .even ('\\' :: c :: text) =
      (translate? .even text).map ('\\'.toNat :: c.toNat :: ·) := by
  have hodd : translate? .odd (c :: text) = (translate? .even text).map (c.toNat :: ·) := rfl
  rw [translate?.eq_5, hodd, Option.map_map]
  · rfl
  · simp [hc]

/-- What stands for one character has no Unicode escape, and an even number of backslashes at its
end. -/
theorem translate?_literalChar (c : Char) (text : List Char) :
    translate? .even (literalChar c ++ text) =
      (translate? .even text).map ((literalChar c).map Char.toNat ++ ·) := by
  unfold literalChar
  split
  all_goals try exact translate?_escape (by decide) text
  next hback _ _ _ _ => exact translate?_plain hback text

theorem translate?_substituted (s text : List Char) :
    translate? .even (s.flatMap literalChar ++ text) =
      (translate? .even text).map ((s.flatMap literalChar).map Char.toNat ++ ·) := by
  induction s with
  | nil => simp
  | cons c s ih =>
    rw [List.flatMap_cons, List.append_assoc, translate?_literalChar, ih, Option.map_map,
      List.map_append]
    simp only [Function.comp_def, List.append_assoc]

/-- A text that looks like an escape is not one in its literal. -/
example : translate? .even (literal "\\u0041").toList =
    some ("\"\\\\u0041\"".toList.map Char.toNat) := by
  decide

theorem reads_literalChar :
    Reads '"'.toNat element? fun c => (literalChar c).map Char.toNat where
  exists_head c := by
    have hquote : '"' ∈ ['"'] := List.mem_singleton_self _
    obtain ⟨d, rest, hc, hd⟩ := (isUnit_literalChar c).exists_head (by decide) hquote
    refine ⟨d.toNat, rest.map Char.toNat, by rw [hc, List.map_cons], ?_⟩
    exact fun h => hd (Char.toNat_inj.mp h)
  element?_append c rest := by
    unfold literalChar
    split
    all_goals try rfl
    next hback _ hfeed hreturn _ =>
      have hne : ∀ d : Char, c ≠ d → c.toNat ≠ d.toNat := fun d hd h => hd (Char.toNat_inj.mp h)
      rw [List.map_singleton, List.singleton_append, element?, if_neg (hne _ hback), if_neg]
      exact not_or.mpr ⟨hne _ hfeed, hne _ hreturn⟩

theorem toList_literal (s : String) :
    (literal s).toList = '"' :: (s.toList.flatMap literalChar ++ ['"']) := by
  simp [literal, Escaping.toList_substitute]

/-- The literal of a text is read as the text, and what follows it as if it stood alone. -/
theorem literal?_literal (s : String) (rest : List Char) :
    literal? ((literal s).toList ++ rest) =
      (translate? .even rest).map fun codes => (s, codes) := by
  have htext : (literal s).toList ++ rest =
      '"' :: (s.toList.flatMap literalChar ++ '"' :: rest) := by
    simp [toList_literal]
  rw [htext, literal?, translate?_plain (by decide), translate?_substituted,
    translate?_plain (by decide), Option.map_map, Option.map_map]
  cases translate? .even rest with
  | none => rfl
  | some codes =>
    have hread := reads_literalChar.read?_literal s.toList codes
    rw [← List.map_flatMap, String.ofList_toList] at hread
    exact hread

end TemplateLang.Java
