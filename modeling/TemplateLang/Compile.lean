import TemplateLang.File.Access
import TemplateLang.Prepare
import TemplateLang.Target.Generation

/-! Compiling a file set: reading its description and the bundle, preparing the tree,
generating a unit for each file, and writing the units below a directory. Nothing is
written when two units have the same file name. -/

namespace TemplateLang

/-- The language that source is generated in. -/
inductive SourceTarget where
  | js
  | java
deriving DecidableEq

def SourceTarget.backend : SourceTarget → Backend
  | .js => .jsSource
  | .java => .javaSource

structure CompileOptions where
  /-- The path of the description. -/
  input : String
  target : SourceTarget
  /-- The path of the bundle of localized messages. -/
  bundle : Option String
  bidiDir : Int
  policy : OverridePolicy
  /-- The package of generated Java classes. -/
  package : Option String
  /-- Whether generated JavaScript declares the objects of namespaces. -/
  declaresNamespaces : Bool
  /-- The directory that units are written below. -/
  outputDirectory : Option String

namespace CompileOptions

/-- Options for a description, everything else being left open. -/
def ofInput (input : String) (target : SourceTarget) : CompileOptions :=
  ⟨input, target, none, 0, .keepLast, none, true, none⟩

def dialect (o : CompileOptions) : Dialect :=
  match o.target with
  | .js => JavaScript.dialect o.declaresNamespaces
  | .java => Java.dialect o.package

def generator (o : CompileOptions) (registry : Registry) : Generator :=
  ⟨o.dialect, registry, o.bidiDir, o.policy⟩

/-- Prepares a tree and generates its units. -/
def compilePrepared (o : CompileOptions) (registry : Registry) (bundle : Option Bundle)
    (t : Tree) : Except CompileError (List OutputUnit) :=
  match t.prepare registry (some o.target.backend) with
  | (.error e, _) => .error e
  | (.ok _, t) => ((o.generator registry).generate t bundle).result

end CompileOptions

section

variable {m : Type → Type} [Monad m] (files : FileAccess m)

/-- Reads and loads a description. -/
def loadFile (path : String) : m (Except LoadError Tree) := do
  match ← files.read path with
  | .error e => return .error (.unreadable e)
  | .ok text => return Tree.load 0 text

/-- Reads a bundle. -/
def loadBundle (path : String) : m (Except CompileError Bundle) := do
  match ← files.read path with
  | .error e => return .error (.file e)
  | .ok text =>
    match Bundle.ofText? text with
    | none => return .error (.malformed path)
    | some b => return .ok b

namespace CompileOptions

/-- The bundle that the options name. -/
def bundle? (o : CompileOptions) : m (Except CompileError (Option Bundle)) := do
  match o.bundle with
  | none => return .ok none
  | some path => return (← loadBundle files path).map some

/-- Compiles a tree; the bundle is read first. -/
def compileTree (o : CompileOptions) (registry : Registry) (t : Tree) :
    m (Except CompileError (List OutputUnit)) := do
  match ← o.bundle? files with
  | .error e => return .error e
  | .ok bundle => return o.compilePrepared registry bundle t

/-- Compiles the description that the options name. -/
def compile (o : CompileOptions) (registry : Registry) :
    m (Except CompileError (List OutputUnit)) := do
  match ← loadFile files o.input with
  | .error e => return .error (.load e)
  | .ok t => o.compileTree files registry t

end CompileOptions

/-! ### Writing -/

/-- The error for the first unit whose file name an earlier unit has. `taken` holds the units
before, the latest first. -/
def duplicateOutput? (taken : List OutputUnit) : List OutputUnit → Option CompileError
  | [] => none
  | unit :: rest =>
    match taken.find? (·.fileName = unit.fileName) with
    | some first => some (.duplicateOutput unit.fileName first.sourcePath unit.sourcePath)
    | none => duplicateOutput? (unit :: taken) rest

/-- Writes a unit, and makes the directories that it is in. -/
def writeUnit (directory : String) (unit : OutputUnit) : m (Except FileError String) := do
  let path := Path.join directory unit.fileName
  let made ← match Path.parent? path with
    | none => pure (.ok ())
    | some parent => files.createDirectories parent
  match made with
  | .error e => return .error e
  | .ok _ => return (← files.write path unit.code).map fun _ => path

/-- Writes units one after the other, up to one that cannot be written. -/
def writeUnits (directory : String) : List OutputUnit → m (Except FileError (List String))
  | [] => return .ok []
  | unit :: rest => do
    match ← writeUnit files directory unit with
    | .error e => return .error e
    | .ok path => return (← writeUnits directory rest).map (path :: ·)

namespace CompileOptions

/-- The directory that units go to unless another is set. -/
def defaultDirectory : String := "out"

/-- Writes all units, and tells their paths. -/
def writeOutput (o : CompileOptions) (units : List OutputUnit) :
    m (Except CompileError (List String)) := do
  match duplicateOutput? [] units with
  | some e => return .error e
  | none =>
    let directory := o.outputDirectory.getD defaultDirectory
    return (← writeUnits files directory units).mapError .file

end CompileOptions

end

end TemplateLang
