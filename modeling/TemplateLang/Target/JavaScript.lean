import TemplateLang.File.Path
import TemplateLang.Target.Dialect

/-! JavaScript source. A template becomes a function that is assigned into the object of its
namespace and appends to an output buffer; a file first declares the objects that its
namespace names. -/

namespace TemplateLang.JavaScript

def notPrecedence : Nat := 14

def equalityPrecedence : Nat := 10

/-- A string literal in single quotes. -/
def literal (s : String) : String := "'" ++ Text.escapeJsString s ++ "'"

def negation (e : Fragment) : Fragment :=
  ⟨"!" ++ e.textAtLeast notPrecedence, notPrecedence⟩

def equality (left right : Fragment) : Fragment :=
  ⟨left.textAtLeast equalityPrecedence ++ " == " ++ right.textAtLeast (equalityPrecedence + 1),
    equalityPrecedence⟩

def call (callee : String) (passesData : Bool) : String :=
  callee ++ "(" ++ (if passesData then "opt_data" else "null") ++ ", output);"

/-! ### Namespaces -/

/-- The line that declares an object unless it is there; the outermost one is a variable. -/
def guardLine (outermost : Bool) (object : String) : String :=
  "if (typeof " ++ object ++ " == 'undefined') \x7b " ++ (if outermost then "var " else "")
    ++ object ++ " = \x7b\x7d; \x7d"

/-- The objects inside `outer` that the segments name, from the outside in. -/
def innerGuards (outer : String) : List String → List String
  | [] => []
  | segment :: rest =>
    let object := outer ++ "." ++ segment
    guardLine false object :: innerGuards object rest

/-- The lines that declare the objects of a namespace. -/
def guardLines (ns : String) : List String :=
  match Text.split '.' ns with
  | [] => []
  | segment :: rest => guardLine true segment :: innerGuards segment rest

/-! ### Files -/

/-- The path of the generated file: the names on the way to the source file, and its name with
another extension. A path that names no file is taken whole. -/
def fileName (path : String) : String :=
  let stem := ((Path.fileName? path).map Path.stem).getD path
  Text.join "/" (Path.directoryNames path ++ [stem ++ ".js"])

def dialect (declaresNamespaces : Bool) : Dialect where
  backend := .jsSource
  data path := .atom ("opt_data." ++ Text.join "." path)
  literal s := .atom (literal s)
  negation := negation
  equality := equality
  test e := e
  printed e := e
  directive? := Directive.jsSource?
  append e := "output.append(" ++ e.text ++ ");"
  call _ callee passesData := call callee passesData
  templateHead name := name ++ " = function(opt_data, opt_sb) \x7b"
  prologue := ["var output = opt_sb || new stencil.StringBuilder();"]
  epilogue := ["return opt_sb ? '' : output.toString();"]
  templateEnd := "\x7d;"
  openFile ns w := if declaresNamespaces then (guardLines ns).foldl CodeWriter.line w else w
  closeFile w := w
  fileName path _ := fileName path

end TemplateLang.JavaScript
