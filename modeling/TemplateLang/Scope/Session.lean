import TemplateLang.Scope.Basic

/-! A scope in use, with the guards that its entries have given, numbered from zero in the order
of entry. Letting go of a guard that was let go before, or that was never given, changes
nothing. -/

namespace TemplateLang

structure Session where
  scope : Scope
  guards : List Guard
deriving DecidableEq

namespace Session

inductive Operation where
  | enter
  | seed (b : Binding)
  | seedShared (bundle : Option Bundle) (bidiDir : Int)
  | get (slot : Slot)
  | exit
  | drop (guard : Nat)
deriving DecidableEq

def start : Session := ⟨.empty, []⟩

/-- One operation: what it answers, and the session that it leaves. -/
def step (s : Session) : Operation → Except CompileError (Option Binding) × Session
  | .enter =>
    match s.scope.enter with
    | .error e => (.error e, s)
    | .ok (guard, scope) => (.ok none, ⟨scope, s.guards ++ [guard]⟩)
  | .seed b =>
    match s.scope.seed b with
    | .error e => (.error e, s)
    | .ok scope => (.ok none, { s with scope })
  | .seedShared bundle bidiDir =>
    let (result, scope) := s.scope.seedShared bundle bidiDir
    (result.map fun _ => none, { s with scope })
  | .get slot => ((s.scope.get slot).map some, s)
  | .exit => (.ok none, { s with scope := s.scope.exit })
  | .drop guard =>
    match s.guards[guard]? with
    | none => (.ok none, s)
    | some g => (.ok none, { s with scope := s.scope.drop g })

/-- The session after a run of operations. -/
def after (operations : List Operation) : Session :=
  operations.foldl (fun s operation => (s.step operation).2) start

end Session

end TemplateLang
