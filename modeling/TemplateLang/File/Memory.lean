import TemplateLang.File.Access
import TemplateLang.File.NameTree
import TemplateLang.File.Path

/-! Files held as a value. A place is a list of names from a working directory, which may
lead out of it by `..`, or from the root of all directories. Both of these are there
without being listed. -/

namespace TemplateLang

/-- Where a file or directory is. -/
structure Place where
  absolute : Bool
  names : List String
deriving DecidableEq

namespace Place

def working : Place := ⟨false, []⟩

/-- Whether the place is there without being listed. -/
def isGiven (p : Place) : Bool := p.names.all (· = "..")

def child (p : Place) (name : String) : Place := { p with names := p.names ++ [name] }

/-- The place one directory up; the root has none above it. -/
def up (p : Place) : Place :=
  if p.isGiven then (if p.absolute then p else p.child "..")
  else { p with names := p.names.dropLast }

end Place

inductive FileEntry where
  | directory
  | file (content : String)
deriving DecidableEq

structure FileSystem where
  /-- Entries by their place from the working directory. -/
  relative : NameTree FileEntry
  /-- Entries by their place from the root. -/
  absolute : NameTree FileEntry

namespace FileSystem

def empty : FileSystem := ⟨.empty, .empty⟩

/-- Names have at most this many bytes. -/
def longestName : Nat := 255

/-- Paths have at most this many bytes. -/
def longestPath : Nat := 4095

def find? (fs : FileSystem) (p : Place) : Option FileEntry :=
  if p.isGiven then some .directory
  else (if p.absolute then fs.absolute else fs.relative).find? p.names

def put (fs : FileSystem) (p : Place) (e : FileEntry) : FileSystem :=
  if p.absolute then { fs with absolute := fs.absolute.insert e p.names }
  else { fs with relative := fs.relative.insert e p.names }

/-- Putting an entry changes nothing at other places. -/
theorem find?_put (fs : FileSystem) (p q : Place) (e : FileEntry) (h : p.isGiven = false) :
    (fs.put p e).find? q = if q = p then some e else fs.find? q := by
  have hp : p.names ≠ [] := by
    intro hn
    simp [Place.isGiven, hn] at h
  obtain ⟨a, n⟩ := p
  obtain ⟨b, m⟩ := q
  cases a <;> cases b <;>
    grind [find?, put, NameTree.find?_insert, Place.isGiven]

/-- Whether a text can be a path. It is looked at before any directory is. -/
def checkPath (path : String) : Except FileError Unit :=
  if path.toList.contains '\x00' then .error .invalidName
  else if longestPath < path.utf8ByteSize then .error .nameTooLong
  else .ok ()

/-- The place that a component leads to from a directory. -/
def follow (p : Place) : PathComponent → Except FileError Place
  | .root => .ok ⟨true, []⟩
  | .current => .ok p
  | .parent => .ok p.up
  | .name s =>
    if longestName < s.utf8ByteSize then .error .nameTooLong else .ok (p.child s)

/-- Follows components through directories that are all there. -/
def walk (fs : FileSystem) (p : Place) : List PathComponent → Except FileError Place
  | [] => .ok p
  | c :: rest => do
    let q ← follow p c
    match fs.find? q with
    | none => .error .notFound
    | some (.file _) => .error .notADirectory
    | some .directory => walk fs q rest

/-- The place of a path whose last component need not be there. -/
def locate (fs : FileSystem) (path : String) : Except FileError Place := do
  checkPath path
  let components := Path.components path
  match components.getLast? with
  | none => .error .notFound
  | some last => follow (← fs.walk .working components.dropLast) last

/-- Whether a path ends as only that of a directory may. -/
def endsAsDirectory (path : String) : Bool :=
  match (Text.split '/' path).getLast? with
  | some s => s = "" || s = "."
  | none => false

def read (fs : FileSystem) (path : String) : Except FileError String := do
  match fs.find? (← fs.locate path) with
  | none => .error .notFound
  | some .directory => .error .isADirectory
  | some (.file content) => if endsAsDirectory path then .error .notADirectory else .ok content

/-- Makes the directories that components lead through, as far as they are missing. A file in
the way is in the place of a directory to be made if it is last or if a directory before it was
missing, which `made` tells; otherwise a directory is only looked for there. -/
def makeDirectories (fs : FileSystem) (p : Place) (made : Bool) :
    List PathComponent → Except FileError Unit × FileSystem
  | [] => (.ok (), fs)
  | c :: rest =>
    match follow p c with
    | .error e => (.error e, fs)
    | .ok q =>
      match fs.find? q with
      | some .directory => makeDirectories fs q made rest
      | some (.file _) =>
        (.error (if made || rest.isEmpty then .alreadyExists else .notADirectory), fs)
      | none => makeDirectories (fs.put q .directory) q true rest

def createDirectories (fs : FileSystem) (path : String) : Except FileError Unit × FileSystem :=
  match checkPath path with
  | .error e => (.error e, fs)
  | .ok _ => fs.makeDirectories .working false (Path.components path)

def write (fs : FileSystem) (path content : String) : Except FileError Unit × FileSystem :=
  match fs.locate path with
  | .error e => (.error e, fs)
  | .ok p =>
    match fs.find? p with
    | some .directory => (.error .isADirectory, fs)
    | some (.file _) =>
      if endsAsDirectory path then (.error .notADirectory, fs)
      else (.ok (), fs.put p (.file content))
    | none =>
      if endsAsDirectory path then (.error .isADirectory, fs)
      else (.ok (), fs.put p (.file content))

/-- Access to files held as a value. -/
def access : FileAccess (StateM FileSystem) where
  read path := fun fs => (fs.read path, fs)
  createDirectories path := fun fs => fs.createDirectories path
  write path content := fun fs => fs.write path content

/-- The files below the working directory, by path. -/
def files (fs : FileSystem) : List (String × String) :=
  fs.relative.toList.filterMap fun
    | (names, .file content) =>
      if names.head? = some ".." then none else some (Text.join "/" names, content)
    | _ => none

end FileSystem

end TemplateLang
