import TemplateLang.File.Error

/-! What a program needs of the files around it: reading a text, making directories, and
writing a text. The files may be those of a machine or a value. -/

namespace TemplateLang

structure FileAccess (m : Type → Type) where
  read : (path : String) → m (Except FileError String)
  /-- Makes a directory and those it is in, as far as they are missing. -/
  createDirectories : (path : String) → m (Except FileError Unit)
  /-- Writes a file in a directory that is there; what the file held before is lost. -/
  write : (path content : String) → m (Except FileError Unit)

end TemplateLang
