import TemplateLang.Json.Token
import TemplateLang.Proofs.Escaping.EscapedText
import TemplateLang.Proofs.Text.Offset

/-! Percent encoding. Escaping for URIs encodes the UTF-8 bytes of a text: a byte that may stay is
the character it is in ASCII, any other a triple. A percent sign may not stay, so in what is
written each percent sign begins a triple, and decoding gives the bytes back. -/

namespace TemplateLang.Escaping

variable {c : Char} {b : UInt8}

/-! ### Encoding of bytes -/

/-- ASCII bytes other than letters and digits. -/
def isNonAlphanumeric (b : UInt8) : Bool :=
  b < 0x80 && !((0x30 ≤ b && b ≤ 0x39) || (0x61 ≤ b && b ≤ 0x7a) || (0x41 ≤ b && b ≤ 0x5a))

/-- The ASCII bytes that are escaped in URIs: the hyphen, the underscore, the full stop and the
asterisk are taken out. -/
def uriEscapeSet (b : UInt8) : Bool :=
  isNonAlphanumeric b && b ≠ 0x2d && b ≠ 0x5f && b ≠ 0x2e && b ≠ 0x2a

/-- Whether a byte is written as it is: an ASCII byte out of the set. -/
def isLiteral (escapeSet : UInt8 → Bool) (b : UInt8) : Bool := b < 0x80 && !escapeSet b

/-- Writes bytes out of ASCII or in the set as triples, and leaves the others alone. -/
def percentEncode (escapeSet : UInt8 → Bool) (bytes : List UInt8) : List Char :=
  bytes.flatMap fun b =>
    if isLiteral escapeSet b then [Char.ofNat b.toNat] else Text.percentTriple b

/-- The bytes that stay are the unreserved characters. -/
theorem marks_unreserved : Text.Marks Text.isUnreserved (isLiteral uriEscapeSet) where
  small := by decide
  char_lt c hc := by
    simp only [Text.isUnreserved, Bool.or_eq_true, decide_eq_true_eq] at hc
    rcases hc with (((hc | rfl) | rfl) | rfl) | rfl
    · exact Text.marks_reference.char_lt c (by simp [Text.isReferenceChar, hc])
    all_goals decide
  byte_lt b hb := by
    rw [isLiteral, Bool.and_eq_true, decide_eq_true_eq] at hb
    exact UInt8.lt_iff_toNat_lt.mp hb.1

theorem uriTriples_eq (c : Char) :
    Text.uriTriples c = percentEncode uriEscapeSet (String.utf8EncodeChar c) := by
  rw [Text.uriTriples, percentEncode]
  split_ifs with hc
  · rcases Text.utf8EncodeChar_cases c with ⟨hlt, hbytes⟩ | ⟨hle, -⟩
    · obtain ⟨b, hb, hliteral⟩ := marks_unreserved.of_true hc
      rw [hbytes] at hb
      obtain rfl := List.singleton_inj.mp hb
      have hnat : (UInt8.ofNat c.toNat).toNat = c.toNat := by
        rw [UInt8.toNat_ofNat', Nat.mod_eq_of_lt (by omega)]
      rw [hbytes, List.flatMap_singleton, if_pos hliteral, hnat, Char.ofNat_toNat]
    · have := marks_unreserved.char_lt c hc
      omega
  · have hbytes := (marks_unreserved.of_false (by simpa using hc)).2
    refine List.flatMap_congr fun b hb => ?_
    rw [if_neg (by simp [hbytes b hb])]

theorem toList_escapeUri (s : String) :
    (Text.escapeUri s).toList = percentEncode uriEscapeSet (Text.utf8 s.toList) := by
  rw [Text.escapeUri, toList_substitute, percentEncode, Text.utf8, List.flatMap_assoc]
  exact List.flatMap_congr fun c _ => uriTriples_eq c

/-! ### Decoding -/

/-- The bytes of a text in which triples stand for bytes. -/
def percentDecode : List Char → List UInt8
  | '%' :: a :: b :: rest =>
    match Json.Token.hexValue? a, Json.Token.hexValue? b with
    | some m, some n => UInt8.ofNat (m * 16 + n) :: percentDecode rest
    | _, _ => String.utf8EncodeChar '%' ++ percentDecode (a :: b :: rest)
  | c :: rest => String.utf8EncodeChar c ++ percentDecode rest
  | [] => []

theorem percentDecode_triple (b : UInt8) (rest : List Char) :
    percentDecode (Text.percentTriple b ++ rest) = b :: percentDecode rest := by
  have hdigit : ∀ n < 16, Json.Token.hexValue? (Text.upperHexDigit n) = some n := by decide
  have hb := b.toNat_lt
  show (match Json.Token.hexValue? (Text.upperHexDigit (b.toNat / 16)),
      Json.Token.hexValue? (Text.upperHexDigit (b.toNat % 16)) with
    | some m, some n => UInt8.ofNat (m * 16 + n) :: percentDecode rest
    | _, _ => _) = _
  rw [hdigit _ (by omega), hdigit _ (by omega)]
  have hsum : b.toNat / 16 * 16 + b.toNat % 16 = b.toNat := by omega
  simp [hsum]

theorem ne_percent (h : Text.isUnreserved c) : c ≠ '%' := by
  rintro rfl
  exact absurd h (by decide)

theorem percentDecode_uriTriples (c : Char) (rest : List Char) :
    percentDecode (Text.uriTriples c ++ rest) =
      String.utf8EncodeChar c ++ percentDecode rest := by
  rw [Text.uriTriples]
  split_ifs with hc
  · rw [List.singleton_append, percentDecode.eq_2]
    exact fun _ _ _ h _ => ne_percent hc h
  · induction String.utf8EncodeChar c with
    | nil => rfl
    | cons b bytes ih =>
      rw [List.flatMap_cons, List.append_assoc, percentDecode_triple, ih, List.cons_append]

theorem percentDecode_escapeUri (s : String) :
    percentDecode (Text.escapeUri s).toList = Text.utf8 s.toList := by
  rw [Text.escapeUri, toList_substitute]
  induction s.toList with
  | nil => rfl
  | cons c s ih => rw [List.flatMap_cons, percentDecode_uriTriples, ih, Text.utf8_cons]

/-- The bytes of a text in UTF-8 are read as the text. -/
theorem fromUTF8?_utf8 (s : String) :
    String.fromUTF8? (Text.utf8 s.toList).toByteArray = some s := by
  have hbytes : (Text.utf8 s.toList).toByteArray = s.toByteArray := by
    rw [← String.ofList_toList (s := s), String.toByteArray_ofList, String.toList_ofList]
    rfl
  rw [hbytes, String.fromUTF8?, dif_pos s.isValidUTF8]
  rfl

/-! ### What is written -/

def isUpperHexDigit (c : Char) : Bool := c.isDigit || ('A' ≤ c && c ≤ 'F')

/-- A text of unreserved characters and complete triples. -/
inductive IsPercentText : List Char → Prop
  | nil : IsPercentText []
  | literal {c : Char} {rest : List Char} : Text.isUnreserved c → IsPercentText rest →
      IsPercentText (c :: rest)
  | triple {a b : Char} {rest : List Char} : isUpperHexDigit a → isUpperHexDigit b →
      IsPercentText rest → IsPercentText ('%' :: a :: b :: rest)

/-- The characters that stand outside triples. -/
def outsideTriples : List Char → List Char
  | '%' :: _ :: _ :: rest => outsideTriples rest
  | c :: rest => c :: outsideTriples rest
  | [] => []

theorem isUpperHexDigit_upperHexDigit {n : ℕ} (h : n < 16) :
    isUpperHexDigit (Text.upperHexDigit n) := by
  have hall : ∀ n < 16, isUpperHexDigit (Text.upperHexDigit n) := by decide
  exact hall n h

theorem IsPercentText.triples {rest : List Char} (h : IsPercentText rest) (bytes : List UInt8) :
    IsPercentText (bytes.flatMap Text.percentTriple ++ rest) := by
  induction bytes with
  | nil => exact h
  | cons b bytes ih =>
    have hb := b.toNat_lt
    exact .triple (isUpperHexDigit_upperHexDigit (by omega))
      (isUpperHexDigit_upperHexDigit (by omega)) ih

theorem outsideTriples_triples (bytes : List UInt8) (rest : List Char) :
    outsideTriples (bytes.flatMap Text.percentTriple ++ rest) = outsideTriples rest := by
  induction bytes with
  | nil => rfl
  | cons b bytes ih => exact ih

/-- The unreserved characters stay, and no other does. -/
theorem isPercentText_escapeUri (s : String) :
    IsPercentText (Text.escapeUri s).toList ∧
      outsideTriples (Text.escapeUri s).toList = s.toList.filter Text.isUnreserved := by
  rw [Text.escapeUri, toList_substitute]
  induction s.toList with
  | nil => exact ⟨.nil, rfl⟩
  | cons c s ih =>
    rw [List.flatMap_cons, Text.uriTriples]
    split_ifs with hc
    · rw [List.singleton_append, outsideTriples.eq_2, List.filter_cons_of_pos hc, ih.2]
      · exact ⟨.literal hc ih.1, rfl⟩
      · exact fun _ _ _ h _ => ne_percent hc h
    · rw [outsideTriples_triples, List.filter_cons_of_neg hc, ih.2]
      exact ⟨ih.1.triples _, rfl⟩

/-- Escaping for URIs writes the UTF-8 bytes of a text, each unreserved character as itself and
every other byte as a triple with upper-case digits; decoding gives the bytes back, and they are
read as the text. -/
theorem escapeUri_lossless (s : String) :
    (Text.escapeUri s).toList = percentEncode uriEscapeSet (Text.utf8 s.toList) ∧
      IsPercentText (Text.escapeUri s).toList ∧
      outsideTriples (Text.escapeUri s).toList = s.toList.filter Text.isUnreserved ∧
      String.fromUTF8? (percentDecode (Text.escapeUri s).toList).toByteArray = some s := by
  obtain ⟨htext, hliterals⟩ := isPercentText_escapeUri s
  refine ⟨toList_escapeUri s, htext, hliterals, ?_⟩
  rw [percentDecode_escapeUri, fromUTF8?_utf8]

end TemplateLang.Escaping
