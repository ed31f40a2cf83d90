import TemplateLang.Text.Segments

/-! Paths of files. Slashes separate components; repeated slashes and dots that stand for
the directory itself do not count, except a dot that the path begins with. -/

namespace TemplateLang

inductive PathComponent where
  | root
  | current
  | parent
  | name (s : String)
deriving DecidableEq

namespace PathComponent

/-- The component that a segment between slashes is, if it counts. -/
def ofSegment? (s : String) : Option PathComponent :=
  if s = "" || s = "." then none else if s = ".." then some .parent else some (.name s)

end PathComponent

namespace Path

def isAbsolute (path : String) : Bool := path.toList.head? = some '/'

def components (path : String) : List PathComponent :=
  let segments := Text.split '/' path
  let start : List PathComponent :=
    if isAbsolute path then [.root] else if segments.head? = some "." then [.current] else []
  start ++ segments.filterMap PathComponent.ofSegment?

/-- The names on the way to the file, without root, `.` and `..`. -/
def directoryNames (path : String) : List String :=
  (components path).dropLast.filterMap fun
    | .name s => some s
    | _ => none

/-- The last component, if it is a name. -/
def fileName? (path : String) : Option String :=
  match (components path).getLast? with
  | some (.name s) => some s
  | _ => none

/-- A file name without its extension. A dot in front does not begin an extension. -/
def stem (fileName : String) : String :=
  match Text.beforeLast? '.' fileName with
  | none | some "" => fileName
  | some s => s

/-- A path within a directory; an absolute path stays as it is. -/
def join (directory path : String) : String :=
  if isAbsolute path || directory = "" then path
  else if directory.toList.getLast? = some '/' then directory ++ path
  else directory ++ "/" ++ path

/-- Whether a segment makes no difference to where a path leads. -/
def isIdle (segment : String) : Bool := (PathComponent.ofSegment? segment).isNone

/-- The text that stands for the first component of a path when nothing else is left of it. -/
def start (path : String) : String :=
  if isAbsolute path then "/" else if (Text.split '/' path).head? = some "." then "." else ""

/-- The directory that a path leads to its last component in, written as in the path. -/
def parent? (path : String) : Option String :=
  match (Text.split '/' path).reverse.dropWhile isIdle with
  | [] => if start path = "." then some "" else none
  | _ :: before =>
    match before.dropWhile isIdle with
    | [] => some (start path)
    | segments => some (Text.join "/" segments.reverse)

end Path

end TemplateLang
