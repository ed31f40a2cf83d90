import TemplateLang.Text.Segments

/-! Fragments of generated source with the precedence of their outermost operator. -/

namespace TemplateLang

structure Fragment where
  text : String
  precedence : Nat
deriving DecidableEq

namespace Fragment

/-- The precedence of what never needs parentheses. -/
def greatestPrecedence : Nat := 255

/-- A fragment without an operator on its outside. -/
def atom (text : String) : Fragment := ⟨text, greatestPrecedence⟩

/-- A function call. -/
def call (function : String) (args : List Fragment) : Fragment :=
  atom (function ++ "(" ++ Text.join ", " (args.map Fragment.text) ++ ")")

/-- The text, in parentheses if it binds looser than `precedence`. -/
def textAtLeast (f : Fragment) (precedence : Nat) : String :=
  if f.precedence < precedence then "(" ++ f.text ++ ")" else f.text

end Fragment

end TemplateLang
