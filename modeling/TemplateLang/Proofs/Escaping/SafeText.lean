import Mathlib.Data.List.TakeWhile
import TemplateLang.Expr.Basic
import TemplateLang.Text.Truncate

/-! The texts that are safe in an escape context. Such a text is a sequence of units: single
characters that mean nothing to the context, complete character references and `<br>`
for HTML, complete backslash sequences for JavaScript strings, complete percent triples
for URIs. No unit begins another, so a safe text has one division into units, and what
follows a safe text in a safe text is safe. -/

namespace TemplateLang.Escaping

def isHexDigit (c : Char) : Bool :=
  c.isDigit || ('a' ≤ c && c ≤ 'f') || ('A' ≤ c && c ≤ 'F')

/-- What stands between the ampersand and the semicolon of a character reference: a name, or a
number sign with a decimal number. -/
def IsReferenceName (name : List Char) : Prop :=
  (name ≠ [] ∧ ∀ c ∈ name, c.isAlphanum) ∨
    ∃ digits, name = '#' :: digits ∧ digits ≠ [] ∧ ∀ c ∈ digits, c.isDigit

/-- Characters that are active in HTML text or end a quoted attribute. -/
def htmlSpecials : List Char := ['&', '<', '>', '"', '\'']

/-- Characters that may not stand for themselves in a JavaScript string inside a page: the
backslash, the quotes, the line terminators and what HTML would read. -/
def jsSpecials : List Char :=
  ['\\', '\'', '"', '\n', '\r', '\u2028', '\u2029', '<', '>', '&']

/-- Characters that make an escape sequence with a backslash in front. -/
def jsSimpleEscapes : List Char := ['\\', '\'', '"', 'b', 'f', 'n', 'r', 't', 'v']

/-- What a safe text is made of. -/
inductive SafeUnit : EscapeContext → List Char → Prop
  | htmlPlain {c : Char} (h : c ∉ htmlSpecials) : SafeUnit .html [c]
  | htmlReference {name : List Char} (h : IsReferenceName name) :
    SafeUnit .html ('&' :: (name ++ [';']))
  | htmlBreak : SafeUnit .html ['<', 'b', 'r', '>']
  | jsPlain {c : Char} (h : c ∉ jsSpecials) : SafeUnit .jsString [c]
  | jsSimple {c : Char} (h : c ∈ jsSimpleEscapes) : SafeUnit .jsString ['\\', c]
  | jsHex {a b : Char} (ha : isHexDigit a) (hb : isHexDigit b) :
    SafeUnit .jsString ['\\', 'x', a, b]
  | jsUnicode {a b c d : Char} (ha : isHexDigit a) (hb : isHexDigit b) (hc : isHexDigit c)
    (hd : isHexDigit d) : SafeUnit .jsString ['\\', 'u', a, b, c, d]
  | uriPlain {c : Char} (h : c.isAlphanum ∨ c ∈ ['-', '_', '.', '*']) : SafeUnit .uri [c]
  | uriTriple {a b : Char} (ha : isHexDigit a) (hb : isHexDigit b) : SafeUnit .uri ['%', a, b]

/-- Texts that are sequences of safe units. -/
inductive Safe (context : EscapeContext) : List Char → Prop
  | nil : Safe context []
  | cons {u t : List Char} (hu : SafeUnit context u) (ht : Safe context t) : Safe context (u ++ t)

variable {context : EscapeContext} {a b t u v x : List Char}

/-! ### Characters of units -/

theorem isHexDigit_ne {c d : Char} (hc : isHexDigit c) (hd : isHexDigit d = false) : d ≠ c := by
  rintro rfl
  rw [hc] at hd
  exact absurd hd (by simp)

theorem isAsciiAlphanumeric_iff {c : Char} : Text.isAsciiAlphanumeric c ↔ c.isAlphanum := by
  have hdigit : (decide ('0' ≤ c) && decide (c ≤ '9')) = c.isDigit := rfl
  have hlower : (decide ('a' ≤ c) && decide (c ≤ 'z')) = c.isLower := rfl
  have hupper : (decide ('A' ≤ c) && decide (c ≤ 'Z')) = c.isUpper :=
    (Bool.decide_and ('A' ≤ c) (c ≤ 'Z')).symm
  have halphanum : c.isAlphanum = (c.isUpper || c.isLower || c.isDigit) := rfl
  rw [Text.isAsciiAlphanumeric, hdigit, hlower, hupper, halphanum,
    Bool.or_comm (c.isDigit || c.isLower), Bool.or_comm c.isDigit, Bool.or_assoc]

theorem IsReferenceName.ne_nil {name : List Char} (h : IsReferenceName name) : name ≠ [] := by
  rcases h with ⟨h, -⟩ | ⟨digits, rfl, -, -⟩
  · exact h
  · simp

theorem IsReferenceName.isReferenceChar {name : List Char} (h : IsReferenceName name) :
    ∀ c ∈ name, Text.isReferenceChar c := by
  intro c hc
  simp only [Text.isReferenceChar, Bool.or_eq_true, decide_eq_true_eq]
  rcases h with ⟨-, h⟩ | ⟨digits, rfl, -, h⟩
  · exact .inl (isAsciiAlphanumeric_iff.mpr (h c hc))
  · rcases List.mem_cons.mp hc with rfl | hc
    · exact .inr rfl
    · refine .inl (isAsciiAlphanumeric_iff.mpr ?_)
      simp [Char.isAlphanum, h c hc]

theorem IsReferenceName.not_mem {name : List Char} (h : IsReferenceName name) {c : Char}
    (hc : Text.isReferenceChar c = false) : c ∉ name := by
  intro hm
  rw [h.isReferenceChar c hm] at hc
  exact absurd hc (by simp)

theorem SafeUnit.ne_nil (hu : SafeUnit context u) : u ≠ [] := by cases hu <;> simp

/-- A dot is a unit of its own only. -/
theorem SafeUnit.dot_not_mem (hu : SafeUnit context u) (h : 2 ≤ u.length) : '.' ∉ u := by
  have hhex : ∀ {c : Char}, isHexDigit c → '.' ≠ c := fun hc => isHexDigit_ne hc (by decide)
  cases hu with
  | htmlPlain | jsPlain | uriPlain => simp at h
  | htmlReference hn => simp [hn.not_mem (c := '.') (by decide)]
  | htmlBreak => decide
  | jsSimple hc =>
    rintro hm
    obtain rfl : '.' = _ := by simpa using hm
    exact absurd hc (by decide)
  | jsHex ha hb => simp [hhex ha, hhex hb]
  | jsUnicode ha hb hc hd => simp [hhex ha, hhex hb, hhex hc, hhex hd]
  | uriTriple ha hb => simp [hhex ha, hhex hb]

theorem safeUnit_dot (context : EscapeContext) : SafeUnit context ['.'] := by
  cases context with
  | html => exact .htmlPlain (by decide)
  | jsString => exact .jsPlain (by decide)
  | uri => exact .uriPlain (.inr (by decide))

/-! ### Division into units -/

/-- Two names that a semicolon ends are the same if one text begins the other. -/
theorem eq_of_semicolons {m n : List Char} (hm : ';' ∉ m) (hn : ';' ∉ n)
    (h : m ++ [';'] <+: n ++ [';']) : m = n := by
  induction m generalizing n with
  | nil =>
    cases n with
    | nil => rfl
    | cons d n =>
      obtain ⟨rfl, -⟩ := List.cons_prefix_cons.mp h
      simp at hn
  | cons c m ih =>
    cases n with
    | nil =>
      have := h.length_le
      simp at this
    | cons d n =>
      obtain ⟨rfl, hr⟩ := List.cons_prefix_cons.mp h
      have hm' : ';' ∉ m := fun hc => hm (List.mem_cons_of_mem _ hc)
      have hn' : ';' ∉ n := fun hc => hn (List.mem_cons_of_mem _ hc)
      rw [ih hm' hn' hr]

/-- No unit begins another. -/
theorem SafeUnit.eq_of_prefix (hu : SafeUnit context u) (hv : SafeUnit context v) (h : u <+: v) :
    u = v := by
  cases hu with
  | htmlPlain hc =>
    cases hv <;> simp_all [List.cons_prefix_cons, htmlSpecials]
  | htmlReference hm =>
    cases hv with
    | htmlPlain hc => simp_all [List.cons_prefix_cons]
    | htmlReference hn =>
      obtain ⟨-, h⟩ := List.cons_prefix_cons.mp h
      rw [eq_of_semicolons (hm.not_mem (by decide)) (hn.not_mem (by decide)) h]
    | htmlBreak => simp [List.cons_prefix_cons] at h
  | htmlBreak => cases hv <;> simp_all [List.cons_prefix_cons]
  | jsPlain hc => cases hv <;> simp_all [List.cons_prefix_cons, jsSpecials]
  | jsSimple hc => cases hv <;> simp_all [List.cons_prefix_cons, jsSimpleEscapes]
  | jsHex => cases hv <;> simp_all [List.cons_prefix_cons]
  | jsUnicode => cases hv <;> simp_all [List.cons_prefix_cons]
  | uriPlain hc =>
    cases hv with
    | uriPlain => simpa [List.cons_prefix_cons] using h
    | uriTriple =>
      obtain ⟨rfl, -⟩ := List.cons_prefix_cons.mp h
      exact absurd hc (by decide)
  | uriTriple => cases hv <;> simp_all [List.cons_prefix_cons]

/-- A text begins with one unit at most. -/
theorem SafeUnit.unique (hu : SafeUnit context u) (hv : SafeUnit context v) (hut : u <+: t)
    (hvt : v <+: t) : u = v := by
  rcases List.prefix_or_prefix_of_prefix hut hvt with h | h
  · exact hu.eq_of_prefix hv h
  · exact (hv.eq_of_prefix hu h).symm

theorem Safe.exists_unit (h : Safe context t) (ht : t ≠ []) :
    ∃ u r, SafeUnit context u ∧ Safe context r ∧ t = u ++ r := by
  cases h with
  | nil => exact absurd rfl ht
  | cons hu hr => exact ⟨_, _, hu, hr, rfl⟩

theorem SafeUnit.safe (hu : SafeUnit context u) : Safe context u := by
  simpa using Safe.cons hu .nil

theorem Safe.append (ha : Safe context a) (hb : Safe context b) : Safe context (a ++ b) := by
  induction ha with
  | nil => exact hb
  | cons hu _ ih =>
    rw [List.append_assoc]
    exact .cons hu ih

theorem Safe.flatMap {f : Char → List Char} (h : ∀ c, Safe context (f c)) (s : List Char) :
    Safe context (s.flatMap f) := by
  induction s with
  | nil => exact .nil
  | cons c s ih =>
    rw [List.flatMap_cons]
    exact (h c).append ih

/-- What follows a unit in a safe text is safe. -/
theorem Safe.of_unit_append (hu : SafeUnit context u) (h : Safe context (u ++ b)) :
    Safe context b := by
  obtain ⟨v, r, hv, hr, hvr⟩ := h.exists_unit (by simp [hu.ne_nil])
  obtain rfl := hu.unique hv (List.prefix_append u b) (hvr ▸ List.prefix_append v r)
  rwa [List.append_cancel_left hvr]

theorem Safe.of_append (ha : Safe context a) (h : Safe context (a ++ b)) : Safe context b := by
  induction ha with
  | nil => exact h
  | cons hu _ ih =>
    rw [List.append_assoc] at h
    exact ih (h.of_unit_append hu)

end TemplateLang.Escaping
