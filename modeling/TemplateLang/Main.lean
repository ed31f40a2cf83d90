import TemplateLang.CommandLine.Compiler
import TemplateLang.CommandLine.Renderer

/-! The two commands over the files of the machine. The first argument says which of them
runs. -/

namespace TemplateLang

/-- The cause of a failed operation on files. -/
def fileError : IO.Error → FileError
  | .noFileOrDirectory .. => .notFound
  | .alreadyExists .. => .alreadyExists
  | .inappropriateType .. => .isADirectory
  | e => .other (toString e)

/-- An operation on files, with its failure as a value. -/
def attempt {α : Type} (action : IO α) : IO (Except FileError α) := do
  match ← action.toBaseIO with
  | .ok a => return .ok a
  | .error e => return .error (fileError e)

def machineFiles : FileAccess IO where
  read path := attempt (IO.FS.readFile path)
  createDirectories path := attempt (IO.FS.createDirAll path)
  write path content := attempt (IO.FS.writeFile path content)

/-- Writes what a command answers, and gives its exit code. -/
def report (r : ProgramResult) : IO UInt32 := do
  IO.print r.output
  match r.error with
  | none => pure ()
  | some e => IO.eprintln ("Error: " ++ e)
  return UInt32.ofNat r.code

end TemplateLang

open TemplateLang in
def main (arguments : List String) : IO UInt32 := do
  match arguments with
  | "compile" :: rest => report (← CompilerCommand.run machineFiles rest)
  | "render" :: rest => report (← RenderCommand.run machineFiles rest)
  | _ => report ⟨2, "", none⟩
