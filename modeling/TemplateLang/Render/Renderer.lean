import TemplateLang.Prepare
import TemplateLang.Render.Template

/-! Renderers. A renderer holds a prepared tree with its templates in effect, and renders
templates by full name or, bound to a namespace, by partial name. Each rendering opens a
frame of a call scope and closes it however the rendering ends. -/

namespace TemplateLang

structure Renderer where
  tree : Tree
  templates : TemplateSet
  registry : Registry
  bidiDir : Int
  /-- The namespace that partial names are relative to. -/
  ns : Option String

namespace Renderer

/-- Prepares a tree for interpretation and finds its templates. -/
def ofTree (t : Tree) (registry : Registry) (bidiDir : Int) (policy : OverridePolicy) :
    Except CompileError Renderer :=
  match t.prepare registry (some .interpreter) with
  | (.error e, _) => .error e
  | (.ok _, t) => do
    let templates ← TemplateSet.resolve t policy
    return ⟨t, templates, registry, bidiDir, none⟩

/-- A renderer of a tree that can be prepared and whose templates can be found. -/
theorem ofTree_eq {t t' : Tree} {registry : Registry} {policy : OverridePolicy}
    {templates : TemplateSet} (hprepare : t.prepare registry (some .interpreter) = (.ok (), t'))
    (hresolve : TemplateSet.resolve t' policy = .ok templates) (bidiDir : Int) :
    ofTree t registry bidiDir policy = .ok ⟨t', templates, registry, bidiDir, none⟩ := by
  rw [ofTree, hprepare]
  simp only [hresolve]
  rfl

/-- The renderer bound to a namespace instead of its own; an empty one does not bind. -/
def forNamespace (r : Renderer) (ns : Option String) : Renderer :=
  { r with ns := ns.filter (· ≠ "") }

/-- The full name that a name stands for. -/
def resolveName (r : Renderer) (name : String) : Except RenderError String :=
  match r.ns with
  | some ns => if isPartialName name then .ok (ns ++ name) else .error (.invalidPartialName name)
  | none => if isPartialName name then .error (.missingNamespace name) else .ok name

def hasTemplate (r : Renderer) (name : String) : Bool :=
  match r.resolveName name with
  | .ok full => (r.templates.get? full).isSome
  | .error _ => false

/-- The text of a template, with the parameters of the call in an open frame. -/
def renderInFrame (r : Renderer) (n : NodeRef) (d : Data) (s : Scope) :
    Except RenderError String :=
  (⟨r.tree, r.templates, r.registry, s⟩ : RenderContext).renderTemplate callDepthLimit
    (r.tree.view n) d

/-- Opens a frame, renders inside it, and lets go of the guard. -/
def renderWithFrame (r : Renderer) (n : NodeRef) (d : Data) (bundle : Option Bundle) (s : Scope) :
    Except RenderError String × Scope :=
  match s.enter with
  | .error e => (.error (.compile e), s)
  | .ok (guard, s) =>
    match s.seedShared bundle r.bidiDir with
    | (.error e, s) => (.error (.compile e), s.drop guard)
    | (.ok _, s) => (r.renderInFrame n d s, s.drop guard)

/-- Renders a template inside a scope that must have no open frame. -/
def renderInScope (r : Renderer) (name : String) (d : Data) (bundle : Option Bundle) (s : Scope) :
    Except RenderError String × Scope :=
  match r.resolveName name with
  | .error e => (.error e, s)
  | .ok full =>
    match r.templates.get? full with
    | none => (.error (.unknownTemplate full), s)
    | some n => r.renderWithFrame n d bundle s

/-- Renders a template in a scope of its own. -/
def render (r : Renderer) (name : String) (d : Data) (bundle : Option Bundle) :
    Except RenderError String :=
  (r.renderInScope name d bundle .empty).1

end Renderer

end TemplateLang
