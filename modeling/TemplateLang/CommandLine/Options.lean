import TemplateLang.Number.Power
import TemplateLang.Text.Segments

/-! Reading the arguments of a command. An option has a long name and perhaps a letter, and
is a flag or takes a value, which stands in the same argument or in the next. Letters of
flags can share an argument. Everything else, and all that follows `--`, is positional.
Help and the version are answered as soon as they are asked for. -/

namespace TemplateLang

/-- An option of a command. -/
structure OptionRule where
  name : String
  letter : Option Char
  takesValue : Bool
  /-- Whether a value may begin with a hyphen. -/
  allowsHyphen : Bool
  /-- Which values are accepted. -/
  accepts : String → Bool

namespace OptionRule

def flag (name : String) (letter : Option Char) : OptionRule :=
  ⟨name, letter, false, false, fun _ => true⟩

def value (name : String) (letter : Option Char) (accepts : String → Bool) : OptionRule :=
  ⟨name, letter, true, false, accepts⟩

end OptionRule

/-- Options of a command that has one positional argument, which is not empty. -/
structure CommandRules where
  options : List OptionRule
  /-- The names of options that have to be given. -/
  required : List String

/-- Why reading stopped. -/
inductive ArgumentStop where
  | help
  | version
  | usage
deriving DecidableEq

/-- What was given: options by name, and the positional argument. -/
structure Given where
  options : List (String × String)
  positional : Option String

namespace Given

def value? (g : Given) (name : String) : Option String :=
  (g.options.find? (·.1 = name)).map (·.2)

def has (g : Given) (name : String) : Bool := (g.value? name).isSome

/-- Adds an option, which can be given once. -/
def addOption (g : Given) (rule : OptionRule) (value : String) : Except ArgumentStop Given :=
  if g.has rule.name || !rule.accepts value then .error .usage
  else .ok { g with options := (rule.name, value) :: g.options }

def addPositional (g : Given) (value : String) : Except ArgumentStop Given :=
  if g.positional.isSome || value = "" then .error .usage
  else .ok { g with positional := some value }

end Given

/-- What has been read, and the option that waits for its value. -/
structure ArgumentState where
  given : Given
  waiting : Option OptionRule
  /-- Whether only positional arguments follow. -/
  trailing : Bool

namespace CommandRules

def empty : ArgumentState := ⟨⟨[], none⟩, none, false⟩

/-- Reads the letters of one argument. -/
def readLetters (rules : CommandRules) (g : Given) : List Char →
    Except ArgumentStop ArgumentState
  | [] => .ok ⟨g, none, false⟩
  | c :: rest =>
    if c = 'h' then .error .help
    else if c = 'V' then .error .version
    else match rules.options.find? (·.letter = some c) with
      | none => .error .usage
      | some rule =>
        if !rule.takesValue then do readLetters rules (← g.addOption rule "") rest
        else match rest with
          | [] => .ok ⟨g, some rule, false⟩
          | '=' :: value => return ⟨← g.addOption rule (String.ofList value), none, false⟩
          | value => return ⟨← g.addOption rule (String.ofList value), none, false⟩

/-- Reads an argument that names an option in full, after its hyphens. -/
def readName (rules : CommandRules) (g : Given) (text : List Char) :
    Except ArgumentStop ArgumentState :=
  let name := String.ofList (text.takeWhile (· ≠ '='))
  let attached? : Option String := match text.dropWhile (· ≠ '=') with
    | [] => none
    | _ :: value => some (String.ofList value)
  match rules.options.find? (·.name = name), attached? with
  | some rule, some value =>
    if rule.takesValue then return ⟨← g.addOption rule value, none, false⟩ else .error .usage
  | some rule, none =>
    if rule.takesValue then .ok ⟨g, some rule, false⟩
    else return ⟨← g.addOption rule "", none, false⟩
  | none, none =>
    if name = "help" then .error .help
    else if name = "version" then .error .version
    else .error .usage
  | none, some _ => .error .usage

/-- Reads an argument that no option waits for. -/
def readArgument (rules : CommandRules) (g : Given) (argument : String) :
    Except ArgumentStop ArgumentState :=
  match argument.toList with
  | ['-', '-'] => .ok ⟨g, none, true⟩
  | '-' :: '-' :: name => rules.readName g name
  | '-' :: c :: letters => rules.readLetters g (c :: letters)
  | _ => return ⟨← g.addPositional argument, none, false⟩

/-- Whether an argument would be taken for an option. -/
def looksLikeOption (argument : String) : Bool :=
  match argument.toList with
  | '-' :: _ :: _ => true
  | _ => false

def step (rules : CommandRules) (s : ArgumentState) (argument : String) :
    Except ArgumentStop ArgumentState :=
  if s.trailing then return { s with given := ← s.given.addPositional argument }
  else match s.waiting with
    | none => rules.readArgument s.given argument
    | some rule =>
      if looksLikeOption argument && !rule.allowsHyphen then .error .usage
      else return ⟨← s.given.addOption rule argument, none, false⟩

/-- Reads all arguments of a command, and gives the positional one with the rest. -/
def read (rules : CommandRules) (arguments : List String) : Except ArgumentStop (String × Given) := do
  let s ← arguments.foldlM rules.step empty
  match s.waiting, s.given.positional with
  | none, some positional =>
    if rules.required.all s.given.has then return (positional, s.given) else .error .usage
  | _, _ => .error .usage

end CommandRules

/-- What a program answers: its exit code, what it writes, and the error that it reports. -/
structure ProgramResult where
  code : Nat
  output : String
  error : Option String
deriving DecidableEq

namespace ProgramResult

def success (output : String) : ProgramResult := ⟨0, output, none⟩

def failure (error : String) : ProgramResult := ⟨1, "", some error⟩

/-- The answer of a program that stopped reading its arguments. -/
def ofStop (version : String) : ArgumentStop → ProgramResult
  | .help => success ""
  | .version => success (version ++ "\n")
  | .usage => ⟨2, "", none⟩

/-- The first line of a text. A line ends in a line feed, before which one carriage return may
stand; neither belongs to it. -/
def firstLine (text : List Char) : List Char :=
  match (text.takeWhile (· ≠ '\n')).reverse with
  | '\r' :: before => before.reverse
  | _ => text.takeWhile (· ≠ '\n')

/-- The first line that reports the error. -/
def errorLine? (r : ProgramResult) : Option String :=
  r.error.map fun e => "Error: " ++ String.ofList (firstLine e.toList)

end ProgramResult

/-! ### Values that several commands take -/

/-- A whole number of 32 bits. -/
def int32? (s : String) : Option Int :=
  let (negative, digits) : Bool × List Char := match s.toList with
    | '-' :: rest => (true, rest)
    | '+' :: rest => (false, rest)
    | rest => (false, rest)
  if digits.isEmpty || !digits.all Char.isDigit then none
  else
    let n : Int := digits.foldl (fun n c => 10 * n + (c.toNat - '0'.toNat)) 0
    let n := if negative then -n else n
    if -(twoTo 31 : Int) ≤ n ∧ n < (twoTo 31 : Int) then some n else none

namespace OptionRule

def path (name : String) (letter : Option Char) : OptionRule := value name letter (· ≠ "")

def text (name : String) (letter : Option Char) : OptionRule := value name letter fun _ => true

def choice (name : String) (letter : Option Char) (choices : List String) : OptionRule :=
  value name letter choices.contains

def bidiDir : OptionRule := ⟨"bidi-dir", none, true, true, fun s => (int32? s).isSome⟩

end OptionRule

/-- The direction that is set, zero if none is. -/
def Given.bidiDir (g : Given) : Int := ((g.value? "bidi-dir").bind int32?).getD 0

end TemplateLang
