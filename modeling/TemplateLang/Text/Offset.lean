import TemplateLang.Text.Truncate

/-! Cuts by offsets. The bytes of a text in UTF-8 are counted, and the scan for a character
reference around a cut reads bytes. Ampersands, semicolons and the characters between them are
single bytes that no other character contains. -/

namespace TemplateLang.Text

def utf8 (s : List Char) : List UInt8 := s.flatMap String.utf8EncodeChar

/-- The offset at which character `n` begins, or at which the text ends. -/
def charOffset (s : List Char) (n : Nat) : Nat := (utf8 (s.take n)).length

def ampersandByte : UInt8 := 0x26

def semicolonByte : UInt8 := 0x3b

/-- Bytes of the characters between the ampersand and the semicolon of a reference. -/
def isReferenceByte (b : UInt8) : Bool :=
  (0x30 ≤ b && b ≤ 0x39) || (0x61 ≤ b && b ≤ 0x7a) || (0x41 ≤ b && b ≤ 0x5a) || b = 0x23

/-- The offset of the last ampersand. -/
def lastAmpersand? : List UInt8 → Option Nat
  | [] => none
  | b :: rest =>
    match lastAmpersand? rest with
    | some i => some (i + 1)
    | none => if b = ampersandByte then some 0 else none

/-- The offset of the ampersand of a reference that goes on beyond the offset `cut`. -/
def referenceStart? (bytes : List UInt8) (cut : Nat) : Option Nat :=
  match lastAmpersand? (bytes.take cut) with
  | none => none
  | some start =>
    let name := (bytes.take cut).drop (start + 1)
    let rest := bytes.drop cut
    let tail := (rest.takeWhile isReferenceByte).length
    if name.all isReferenceByte && 0 < name.length + tail && rest[tail]? = some semicolonByte then
      some start
    else none

/-- The offset at which a text is cut that should be cut at the offset `cut`. -/
def cutOffset (bytes : List UInt8) (cut : Nat) : Nat := (referenceStart? bytes cut).getD cut

/-- The offsets at which the bytes are divided on the way: at the cut that is aimed at, behind the
last ampersand before it, and where the text is cut in the end. -/
def sliceOffsets (bytes : List UInt8) (cut : Nat) : List Nat :=
  cut :: ((lastAmpersand? (bytes.take cut)).map (· + 1)).toList ++ [cutOffset bytes cut]

end TemplateLang.Text
