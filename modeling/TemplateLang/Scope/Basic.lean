import TemplateLang.Direction.Basic
import TemplateLang.Error
import TemplateLang.Message.Bundle

/-! The scope of a call. It has at most one open frame, in which each slot can be bound
once. Entering gives a guard, which closes the frame that its own entry opened and no
later one: every entry has a generation of its own. -/

namespace TemplateLang

/-- A value for a slot: the messages of a bundle, the locale, or the direction. -/
inductive Binding where
  | msgBundle (bundle : Option Bundle)
  | localeString (locale : Option String)
  | bidiGlobalDir (direction : Direction)
deriving DecidableEq

def Binding.slot : Binding → Slot
  | .msgBundle _ => .msgBundle
  | .localeString _ => .localeString
  | .bidiGlobalDir _ => .bidiGlobalDir

/-- The bindings of an open frame, the latest first. -/
abbrev Frame := List Binding

structure Scope where
  frame : Option Frame
  /-- How many times the scope has been entered. -/
  generation : Nat
deriving DecidableEq

/-- What an entry gives, by which its frame can be closed. -/
structure Guard where
  generation : Nat
deriving DecidableEq

namespace Scope

def empty : Scope := ⟨none, 0⟩

def isActive (s : Scope) : Bool := s.frame.isSome

/-- Opens a frame without bindings. -/
def enter (s : Scope) : Except CompileError (Guard × Scope) :=
  match s.frame with
  | some _ => .error .scopeReentry
  | none => .ok (⟨s.generation + 1⟩, ⟨some [], s.generation + 1⟩)

/-- Binds a slot of the open frame. -/
def seed (s : Scope) (b : Binding) : Except CompileError Scope :=
  match s.frame with
  | none => .error (.scopeNotEntered b.slot)
  | some frame =>
    if frame.any (·.slot = b.slot) then .error (.duplicateSeed b.slot)
    else .ok { s with frame := some (b :: frame) }

/-- The binding of a slot in the open frame. -/
def get (s : Scope) (slot : Slot) : Except CompileError Binding :=
  match s.frame.bind fun frame => frame.find? (·.slot = slot) with
  | some b => .ok b
  | none => .error (.unseededSlot slot)

/-- Closes the frame, if one is open. -/
def exit (s : Scope) : Scope := { s with frame := none }

/-- Lets go of a guard, which closes the frame that its entry opened. -/
def drop (s : Scope) (g : Guard) : Scope := if s.generation = g.generation then s.exit else s

def msgBundle (s : Scope) : Except CompileError (Option Bundle) :=
  match s.get .msgBundle with
  | .ok (.msgBundle bundle) => .ok bundle
  | .ok _ => .error (.unseededSlot .msgBundle)
  | .error e => .error e

def locale (s : Scope) : Except CompileError (Option String) :=
  match s.get .localeString with
  | .ok (.localeString locale) => .ok locale
  | .ok _ => .error (.unseededSlot .localeString)
  | .error e => .error e

def direction (s : Scope) : Except CompileError Direction :=
  match s.get .bidiGlobalDir with
  | .ok (.bidiGlobalDir direction) => .ok direction
  | .ok _ => .error (.unseededSlot .bidiGlobalDir)
  | .error e => .error e

/-- The bindings that every call has: the messages, their locale, and the direction that is set
or that the locale has. -/
def sharedBindings (bundle : Option Bundle) (bidiDir : Int) : List Binding :=
  let locale := bundle.map Bundle.locale
  [.msgBundle bundle, .localeString locale, .bidiGlobalDir (.resolve bidiDir locale)]

/-- Binds slots one after the other, up to one that is refused. -/
def seedAll : Scope → List Binding → Except CompileError Unit × Scope
  | s, [] => (.ok (), s)
  | s, b :: rest =>
    match s.seed b with
    | .ok s => seedAll s rest
    | .error e => (.error e, s)

def seedShared (s : Scope) (bundle : Option Bundle) (bidiDir : Int) :
    Except CompileError Unit × Scope :=
  s.seedAll (sharedBindings bundle bidiDir)

end Scope

end TemplateLang
