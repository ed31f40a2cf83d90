import TemplateLang.Direction.Folding
import TemplateLang.Message.Insertion
import TemplateLang.Target.Emission
import TemplateLang.Target.Java
import TemplateLang.Target.JavaScript

/-! Generating source from a prepared tree. With a bundle, messages are replaced first. Then
a frame of the call scope is opened and given the parameters of the call, the helpers
that depend on the direction are folded, and every file is emitted. The frame is closed
however the call ends. -/

namespace TemplateLang

/-- Which source is generated, and how. -/
structure Generator where
  dialect : Dialect
  registry : Registry
  bidiDir : Int
  policy : OverridePolicy

/-- What a call gives, and the tree and scope that it leaves. -/
structure Generation where
  result : Except CompileError (List OutputUnit)
  tree : Tree
  scope : Scope

namespace Generator

/-- What happens inside the frame. -/
def generateInFrame (g : Generator) (t : Tree) (s : Scope) :
    Except CompileError (List OutputUnit) × Tree :=
  match t.optimizeBidi s with
  | (.error e, t) => (.error e, t)
  | (.ok _, t) =>
    match TemplateSet.resolve t g.policy with
    | .error e => (.error e, t)
    | .ok templates => (t.emit g.dialect g.registry templates, t)

/-- Opens a frame, generates inside it, and lets go of the guard. -/
def generateWithFrame (g : Generator) (t : Tree) (bundle : Option Bundle) (s : Scope) :
    Generation :=
  match s.enter with
  | .error e => ⟨.error e, t, s⟩
  | .ok (guard, s) =>
    match s.seedShared bundle g.bidiDir with
    | (.error e, s) => ⟨.error e, t, s.drop guard⟩
    | (.ok _, s) =>
      let (result, t) := g.generateInFrame t s
      ⟨result, t, s.drop guard⟩

/-- Generates source inside a scope that must have no open frame. -/
def generateInScope (g : Generator) (t : Tree) (bundle : Option Bundle) (s : Scope) :
    Generation :=
  match bundle with
  | none => g.generateWithFrame t none s
  | some b =>
    match t.insertMessages (some b) with
    | (.error e, t) => ⟨.error e, t, s⟩
    | (.ok _, t) => g.generateWithFrame t (some b) s

/-- Generates source in a scope of its own. -/
def generate (g : Generator) (t : Tree) (bundle : Option Bundle) : Generation :=
  g.generateInScope t bundle .empty

end Generator

end TemplateLang
