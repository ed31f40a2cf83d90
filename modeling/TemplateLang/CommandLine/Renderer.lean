import TemplateLang.CommandLine.Options
import TemplateLang.Compile
import TemplateLang.Render.Renderer

/-! The command that renders one template of a file set. -/

namespace TemplateLang.RenderCommand

def version : String := "stencil-render 0.1.0"

def rules : CommandRules where
  options :=
    [.text "template" (some 't'), .text "namespace" (some 'n'), .text "data" (some 'd'),
      .path "bundle" none, .bidiDir, .flag "verbose" (some 'v')]
  required := ["template"]

/-- The data that is used when none is given. -/
def defaultData : String := "\x7b\x7d"

/-- Renders a template of a loaded tree with data and a bundle that have been read. -/
def render (t : Tree) (g : Given) (d : Data) (bundle : Option Bundle) : ProgramResult :=
  match Renderer.ofTree t .full g.bidiDir .keepLast with
  | .error e => .failure e.message
  | .ok r =>
    let name := (g.value? "template").getD ""
    match (r.forNamespace (g.value? "namespace")).render name d bundle with
    | .error _ => .failure ("failed to render " ++ name)
    | .ok text => .success (text ++ "\n")

section

variable {m : Type → Type} [Monad m] (files : FileAccess m)

/-- Reads the bundle that is named, if one is. -/
def bundle? (path : Option String) : m (Except String (Option Bundle)) := do
  match path with
  | none => return .ok none
  | some path =>
    match ← loadBundle files path with
    | .error _ => return .error ("failed to load bundle " ++ path)
    | .ok b => return .ok (some b)

def run (arguments : List String) : m ProgramResult := do
  match rules.read arguments with
  | .error stop => return .ofStop version stop
  | .ok (input, given) =>
    match ← loadFile files input with
    | .error _ => return .failure ("failed to load " ++ input)
    | .ok t =>
      match ← bundle? files (given.value? "bundle") with
      | .error e => return .failure e
      | .ok bundle =>
        match Data.ofText ((given.value? "data").getD defaultData) with
        | .error _ => return .failure "invalid --data"
        | .ok d => return render t given d bundle

end

end TemplateLang.RenderCommand
