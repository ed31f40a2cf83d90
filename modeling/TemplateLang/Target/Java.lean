import TemplateLang.Target.Dialect
import TemplateLang.Text.UpperCase

/-! Java source. The namespace of a file becomes a class with a static method for each
template. The class is in the package that is set, or in that of the namespace without
its last segment. -/

namespace TemplateLang.Java

def notPrecedence : Nat := 14

/-- What stands for `c` between the quotes of a string literal. -/
def literalChar : Char → List Char
  | '\\' => ['\\', '\\']
  | '"' => ['\\', '"']
  | '\n' => ['\\', 'n']
  | '\r' => ['\\', 'r']
  | '\t' => ['\\', 't']
  | c => [c]

/-- A string literal in double quotes. -/
def literal (s : String) : String := "\"" ++ Text.substitute literalChar s ++ "\""

/-- A call of a helper method. -/
def helperCall (name : String) (args : List Fragment) : Fragment :=
  .call (Directive.javaHelper name) args

def test (e : Fragment) : Fragment := helperCall "coerceToBoolean" [e]

def negation (e : Fragment) : Fragment :=
  ⟨"!" ++ (test e).textAtLeast notPrecedence, notPrecedence⟩

/-! ### Names -/

def capitalized (word : List Char) : List Char :=
  match word with
  | [] => []
  | c :: rest => Text.upperCase c ++ rest

/-- The class of a namespace: the words of its last segment, each with a capital. -/
def className (ns : String) : String :=
  let words := Text.splitChars '_' (Text.lastSegment '.' ns).toList
  String.ofList (words.flatMap capitalized) ++ "Templates"

/-- The method of a template: the last segment of its name. -/
def methodName (template : String) : String := Text.lastSegment '.' template

/-- The package of a namespace. -/
def packageOf (package : Option String) (ns : String) : Option String :=
  match package with
  | some p => some p
  | none => Text.beforeLast? '.' ns

def qualifiedClass (package : Option String) (ns : String) : String :=
  match packageOf package ns with
  | some p => p ++ "." ++ className ns
  | none => className ns

/-- The path of the generated file, under the directories of its package. -/
def fileName (package : Option String) (ns : String) : String :=
  match packageOf package ns with
  | some p => String.map (fun c => if c = '.' then '/' else c) p ++ "/" ++ className ns ++ ".java"
  | none => className ns ++ ".java"

/-! ### Statements and files -/

/-- The method that a call names; one of another namespace is qualified by its class. -/
def callTarget (package : Option String) (ns callee : String) : String :=
  match Text.beforeLast? '.' callee with
  | some calleeNs =>
    if calleeNs ≠ ns then qualifiedClass package calleeNs ++ "." ++ methodName callee
    else methodName callee
  | none => methodName callee

def openFile (package : Option String) (ns : String) (w : CodeWriter) : CodeWriter :=
  let w := match packageOf package ns with
    | some p => (w.line ("package " ++ p ++ ";")).blank
    | none => w
  let w := (w.line "import java.util.Map;").blank
  let w := (w.line ("public final class " ++ className ns ++ " \x7b")).indent
  w.line ("private " ++ className ns ++ "() \x7b\x7d")

def dialect (package : Option String) : Dialect where
  backend := .javaSource
  data path := helperCall "getData" [.atom "data", .atom (literal (Text.join "." path))]
  literal s := .atom (literal s)
  negation := negation
  equality left right := helperCall "equals" [left, right]
  test := test
  printed e := helperCall "coerceToString" [e]
  directive? := Directive.javaSource?
  append e := "sb.append(" ++ e.text ++ ");"
  call ns callee passesData :=
    callTarget package ns callee ++ "(" ++ (if passesData then "data" else "null") ++ ", sb);"
  templateHead name :=
    "public static void " ++ methodName name ++ "(Map<String, Object> data, StringBuilder sb) \x7b"
  prologue := []
  epilogue := []
  templateEnd := "\x7d"
  openFile := openFile package
  closeFile w := w.dedent.line "\x7d"
  fileName _ ns := fileName package ns

end TemplateLang.Java
