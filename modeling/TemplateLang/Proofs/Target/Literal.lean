import TemplateLang.Proofs.Java.Literal
import TemplateLang.Proofs.JavaScript.Literal

/-! Texts in generated code. A template's text reaches the generated program as a string literal,
and no text can end its literal early, break its line or mean another text there. -/

namespace TemplateLang

open Literal

/-- The literals of a text keep it between their quotes, and each language reads its literal as the
text: JavaScript whatever follows, and Java, which replaces Unicode escapes first, wherever what
follows has a reading. -/
theorem literals_read_back (s : String) :
    (∃ body, (JavaScript.literal s).toList = '\'' :: (body ++ ['\'']) ∧
      Confined ['\'', '"'] ['\n', '\r', '\u2028', '\u2029', '<', '>', '&'] body ∧
      ∀ rest, JavaScript.literal? ((JavaScript.literal s).toList ++ rest) = some (s, rest)) ∧
    ∃ body, (Java.literal s).toList = '"' :: (body ++ ['"']) ∧
      Confined ['"'] ['\n', '\r'] body ∧
      ∀ rest, Java.literal? ((Java.literal s).toList ++ rest) =
        (Java.translate? .even rest).map fun codes => (s, codes) := by
  refine ⟨⟨_, JavaScript.toList_literal s, ?_, JavaScript.literal?_literal s⟩,
    ⟨_, Java.toList_literal s, ?_, Java.literal?_literal s⟩⟩
  · exact confined_flatMap JavaScript.isUnit_jsSequence (by decide) (by decide) s.toList
  · exact confined_flatMap Java.isUnit_literalChar (by decide) (by decide) s.toList

end TemplateLang
