import TemplateLang.Scope.Slot
import TemplateLang.Target.Backend
import TemplateLang.Tree.Load

/-! What can go wrong when templates are checked, transformed and turned into source, and
how it is reported. -/

namespace TemplateLang

/-- Why no code could be generated for a node. -/
inductive EmissionFault where
  | unknownPlaceholder (key name : String)
  | unfolded (source : String)
  | misplaced (label : String)
  | expectedFile (label : String)
  | expectedTemplate (label : String)
deriving DecidableEq

namespace EmissionFault

def message : EmissionFault → String
  | .unknownPlaceholder key name =>
    "translation of message '" ++ key ++ "' uses unknown placeholder " ++ name
  | .unfolded source => source ++ " was not folded before emission"
  | .misplaced label => "unexpected " ++ label ++ " inside a template body"
  | .expectedFile label => "expected a file, found " ++ label
  | .expectedTemplate label => "expected a template, found " ++ label

end EmissionFault

inductive CompileError where
  | load (e : LoadError)
  | tree (e : TreeError)
  | file (e : FileError)
  | malformed (path : String)
  | duplicateTemplateSameFile (name file : String)
  | duplicateTemplate (name firstFile secondFile : String)
  | partialTemplateName (name : String)
  | unknownDirective (name : String) (site : Option String)
  | arity (name : String) (expected : List Nat) (found : Nat) (site : Option String)
  | unsupportedDirective (directive : String) (backend : Backend) (node : Nat)
  | invalidDirectiveArgument (name message : String)
  | scopeReentry
  | scopeNotEntered (slot : Slot)
  | duplicateSeed (slot : Slot)
  | unseededSlot (slot : Slot)
  | codeGeneration (node : Nat) (fault : EmissionFault)
  | duplicateOutput (path firstSource secondSource : String)
deriving DecidableEq

namespace CompileError

def siteSuffix : Option String → String
  | none => ""
  | some site => " in " ++ site

def message : CompileError → String
  | .load e => e.message
  | .tree e => e.message
  | .file e => "I/O error: " ++ e.message
  | .malformed path => "Invalid JSON in " ++ path
  | .duplicateTemplateSameFile name path =>
    "Found two definitions for template name '" ++ name ++ "', both in the file " ++ path ++ "."
  | .duplicateTemplate name first second =>
    "Found two definitions for template name '" ++ name ++ "' in two different files " ++ first
      ++ " and " ++ second ++ "."
  | .partialTemplateName name =>
    "Template name '" ++ name ++ "' is not fully qualified; namespaces must be prepended first"
  | .unknownDirective name site =>
    "Unknown print directive '" ++ name ++ "'" ++ siteSuffix site
  | .arity name expected found site =>
    "Print directive '" ++ name ++ "' takes " ++ Text.join " or " (expected.map toString)
      ++ " argument(s), found " ++ toString found ++ siteSuffix site
  | .unsupportedDirective directive backend node =>
    "Print directive '" ++ directive ++ "' has no " ++ backend.name ++ " implementation (node "
      ++ nodeName node ++ ")"
  | .invalidDirectiveArgument name message =>
    "Print directive '" ++ name ++ "' got an invalid argument: " ++ message
  | .scopeReentry => "Call scope entered while a frame is already open"
  | .scopeNotEntered slot => "Call scope slot " ++ slot.name ++ " seeded outside an open frame"
  | .duplicateSeed slot => "Call scope slot " ++ slot.name ++ " seeded twice in one frame"
  | .unseededSlot slot =>
    "Call scope slot " ++ slot.name ++ " read outside a frame or before it was seeded"
  | .codeGeneration node fault =>
    "Code generation error at node " ++ nodeName node ++ ": " ++ fault.message
  | .duplicateOutput path first second =>
    "Output file " ++ path ++ " would be written for both " ++ first ++ " and " ++ second

/-- Adds the print that an error about a directive call comes from. -/
def atSite (site : String) : CompileError → CompileError
  | .unknownDirective name _ => .unknownDirective name (some site)
  | .arity name expected found _ => .arity name expected found (some site)
  | e => e

end CompileError

end TemplateLang
