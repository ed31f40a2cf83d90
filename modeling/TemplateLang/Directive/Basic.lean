import TemplateLang.Error
import TemplateLang.Number.Reading
import TemplateLang.Target.Fragment
import TemplateLang.Text.Truncate

/-! The directives of prints: transformations of a printed value, by name. Some take
arguments, some satisfy the escape that a print needs, and each says what it does for
each backend. A directive without a form for a backend cannot be used there. -/

namespace TemplateLang

inductive Directive where
  | changeNewlineToBr
  | escapeHtml
  | escapeJsString
  | escapeUri
  | noAutoescape
  | truncate
deriving DecidableEq

namespace Directive

/-- All directives, in increasing order of name. -/
def all : List Directive :=
  [.changeNewlineToBr, .escapeHtml, .escapeJsString, .escapeUri, .noAutoescape, .truncate]

/-- The name without its marker. -/
def bareName : Directive → String
  | .changeNewlineToBr => "changeNewlineToBr"
  | .escapeHtml => "escapeHtml"
  | .escapeJsString => "escapeJsString"
  | .escapeUri => "escapeUri"
  | .noAutoescape => "noAutoescape"
  | .truncate => "truncate"

/-- The name by which prints call the directive. -/
def name (d : Directive) : String := "|" ++ d.bareName

/-- The numbers of arguments that are accepted. -/
def sizes : Directive → List Nat
  | .truncate => [1, 2]
  | _ => [0]

/-- Whether the directive takes the place of the escape of its print. -/
def cancelsAutoescape : Directive → Bool
  | .changeNewlineToBr | .truncate => false
  | _ => true

/-! ### Interpretation -/

/-- Truth of a JSON value: null, zero and the empty text are false. -/
def isTruthy : Json → Bool
  | .null => false
  | .bool b => b
  | .number n => !n.toNumber.isZero
  | .string s => s ≠ ""
  | .array _ | .object _ => true

/-- Lengths are counted in 64 bits. -/
def greatestLength : Nat := twoTo 64 - 1

/-- A number as a length: its whole part, if it is finite and not negative. -/
def length? : Number → Option Nat
  | .finite negative m =>
    if negative && m.units ≠ 0 then none else some (min m.floor greatestLength)
  | _ => none

/-- The length that an argument gives, as a number or as text that writes one. -/
def lengthArgument? : Json → Option Nat
  | .number n => length? n.toNumber
  | .string s => (Number.ofText? (Text.trimChars s.toList)).bind length?
  | _ => none

def invalidLength (found : String) : CompileError :=
  .invalidDirectiveArgument truncate.name
    ("max length must be a non-negative number, found " ++ found)

/-- Cuts a value to the length that the first argument gives, with an ellipsis unless the second
is false. -/
def applyTruncate (value : String) : List Json → Except CompileError String
  | [] => .error (invalidLength "nothing")
  | limit :: rest =>
    match lengthArgument? limit with
    | none => .error (invalidLength limit.text)
    | some n => .ok (Text.truncate value n ((rest.head?.map isTruthy).getD true))

/-- What the directive does to a value when a template is interpreted. -/
def interpreted? : Directive → Option (String → List Json → Except CompileError String)
  | .changeNewlineToBr => some fun value _ => .ok (Text.changeNewlineToBr value)
  | .escapeHtml => some fun value _ => .ok (Text.escapeHtml value)
  | .escapeJsString => some fun value _ => .ok (Text.escapeJsString value)
  | .escapeUri => some fun value _ => .ok (Text.escapeUri value)
  | .noAutoescape => some fun value _ => .ok value
  | .truncate => some applyTruncate

/-! ### Generated source -/

/-- The name of a function that generated JavaScript relies on. -/
def jsHelper (name : String) : String := "stencil.$$" ++ name

/-- The name of a method that generated Java relies on. -/
def javaHelper (name : String) : String := "StencilUtils.$$" ++ name

/-- The directive applied to a value in JavaScript. -/
def jsSource? : Directive → Option (Fragment → List Fragment → Fragment)
  | .noAutoescape => some fun value _ => value
  | .truncate => some fun value args =>
      .call (jsHelper truncate.bareName)
        ([value] ++ args.head?.toList ++ [args[1]?.getD (.atom "true")])
  | d => some fun value _ => .call (jsHelper d.bareName) [value]

/-- The directive applied to a value in Java, where nothing is cut. -/
def javaSource? : Directive → Option (Fragment → List Fragment → Fragment)
  | .noAutoescape => some fun value _ => value
  | .truncate => none
  | d => some fun value _ => .call (javaHelper d.bareName) [value]

def supports (d : Directive) : Backend → Bool
  | .interpreter => d.interpreted?.isSome
  | .jsSource => d.jsSource?.isSome
  | .javaSource => d.javaSource?.isSome

/-- Refuses a number of arguments that is not accepted. -/
def checkArity (d : Directive) (found : Nat) : Except CompileError Unit :=
  if d.sizes.contains found then .ok () else .error (.arity d.name d.sizes found none)

end Directive

end TemplateLang
