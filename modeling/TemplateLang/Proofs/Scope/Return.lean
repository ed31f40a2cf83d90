import TemplateLang.Proofs.Scope.Frame
import TemplateLang.Render.Renderer
import TemplateLang.Target.Generation

/-! Calls that give their scope back. Generating source and rendering a template both open a
frame, bind the parameters of the call in it and let go of the guard at the end, whether the
work in between succeeds or fails. A scope without an open frame is therefore left without
one; a scope in which another call has a frame open is left as it was, and so is that frame. -/

namespace TemplateLang

/-- The call gives back the scope that it runs in. Apart from the scope it gives a result and
something else that it changes. -/
structure GivesBack {ε β ρ : Type} (call : Scope → Except ε β × ρ × Scope) : Prop where
  /-- Where no frame is open, none is open afterwards and the scope can be entered again. -/
  closed : ∀ s, s.frame = none →
    (call s).2.2.frame = none ∧ ∃ entered, (call s).2.2.enter = .ok entered
  /-- Where a frame is open the call fails, in the same way whatever is bound in the frame, and
  leaves the scope as it is. -/
  busy : ∃ e rest, ∀ s, s.isActive → call s = (.error e, rest, s)

variable {s : Scope} {f : Frame}

namespace Scope

theorem drop_frame {guard : Guard} (h : s.generation = guard.generation) : (s.drop guard).frame = none := by
  rw [drop, if_pos h]
  rfl

/-- The guard of an entry closes the frame, whether or not the slots could be bound in it. -/
theorem drop_frame_of_seedShared {bundle : Option Bundle} {bidiDir : Int} {s s' : Scope}
    {result : Except CompileError Unit} (h : s.seedShared bundle bidiDir = (result, s')) :
    (s'.drop ⟨s.generation⟩).frame = none := by
  have hgeneration := seedAll_generation s (sharedBindings bundle bidiDir)
  rw [← seedShared, h] at hgeneration
  exact drop_frame hgeneration

theorem isActive_iff : s.isActive ↔ ∃ f, s.frame = some f := by
  rw [isActive, Option.isSome_iff_exists]

end Scope

/-! ### Generating source -/

namespace Generator

theorem generateWithFrame_frame (g : Generator) (t : Tree) (bundle : Option Bundle)
    (hf : s.frame = none) : (g.generateWithFrame t bundle s).scope.frame = none := by
  simp only [generateWithFrame, Scope.enter_of_none hf]
  split
  case h_1 e s' hseeded => exact Scope.drop_frame_of_seedShared hseeded
  case h_2 s' hseeded => exact Scope.drop_frame_of_seedShared hseeded

theorem generateWithFrame_busy (g : Generator) (t : Tree) (bundle : Option Bundle)
    (hf : s.frame = some f) :
    g.generateWithFrame t bundle s = ⟨.error .scopeReentry, t, s⟩ := by
  rw [generateWithFrame, Scope.enter_of_some hf]

theorem generateInScope_frame (g : Generator) (t : Tree) (bundle : Option Bundle)
    (hf : s.frame = none) : (g.generateInScope t bundle s).scope.frame = none := by
  cases bundle with
  | none => exact g.generateWithFrame_frame t none hf
  | some b =>
    simp only [generateInScope]
    rcases t.insertMessages (some b) with ⟨e | _, t'⟩
    · exact hf
    · exact g.generateWithFrame_frame t' (some b) hf

/-- The error comes from the messages or from the entry, and neither reads the frame. -/
theorem generateInScope_busy (g : Generator) (t : Tree) (bundle : Option Bundle) :
    ∃ e t', ∀ s : Scope, s.isActive → g.generateInScope t bundle s = ⟨.error e, t', s⟩ := by
  cases bundle with
  | none =>
    refine ⟨.scopeReentry, t, fun s hs => ?_⟩
    obtain ⟨f, hf⟩ := Scope.isActive_iff.mp hs
    exact g.generateWithFrame_busy t none hf
  | some b =>
    rcases hinsert : t.insertMessages (some b) with ⟨e | _, t'⟩
    · exact ⟨e, t', fun s _ => by simp only [generateInScope, hinsert]⟩
    · refine ⟨.scopeReentry, t', fun s hs => ?_⟩
      obtain ⟨f, hf⟩ := Scope.isActive_iff.mp hs
      simp only [generateInScope, hinsert]
      exact g.generateWithFrame_busy t' (some b) hf

end Generator

/-! ### Rendering a template -/

namespace Renderer

theorem renderWithFrame_frame (r : Renderer) (n : NodeRef) (d : Data) (bundle : Option Bundle)
    (hf : s.frame = none) : (r.renderWithFrame n d bundle s).2.frame = none := by
  simp only [renderWithFrame, Scope.enter_of_none hf]
  split
  case h_1 e s' hseeded => exact Scope.drop_frame_of_seedShared hseeded
  case h_2 s' hseeded => exact Scope.drop_frame_of_seedShared hseeded

theorem renderInScope_frame (r : Renderer) (name : String) (d : Data) (bundle : Option Bundle)
    (hf : s.frame = none) : (r.renderInScope name d bundle s).2.frame = none := by
  rw [renderInScope]
  cases r.resolveName name with
  | error e => exact hf
  | ok full =>
    dsimp only
    cases r.templates.get? full with
    | none => exact hf
    | some n => exact r.renderWithFrame_frame n d bundle hf

/-- The error comes from the name or from the entry, and neither reads the frame. -/
theorem renderInScope_busy (r : Renderer) (name : String) (d : Data) (bundle : Option Bundle) :
    ∃ e, ∀ s : Scope, s.isActive → r.renderInScope name d bundle s = (.error e, s) := by
  cases hname : r.resolveName name with
  | error e => exact ⟨e, fun s _ => by rw [renderInScope, hname]⟩
  | ok full =>
    cases hn : r.templates.get? full with
    | none => exact ⟨.unknownTemplate full, fun s _ => by simp only [renderInScope, hname, hn]⟩
    | some n =>
      refine ⟨.compile .scopeReentry, fun s hs => ?_⟩
      obtain ⟨f, hf⟩ := Scope.isActive_iff.mp hs
      simp only [renderInScope, hname, hn, renderWithFrame, Scope.enter_of_some hf]

end Renderer

/-! ### Giving the scope back -/

/-- Generating source, as a call that changes a tree. -/
def Generator.call (g : Generator) (t : Tree) (bundle : Option Bundle) (s : Scope) :
    Except CompileError (List OutputUnit) × Tree × Scope :=
  let generation := g.generateInScope t bundle s
  (generation.result, generation.tree, generation.scope)

/-- Rendering a template, as a call that changes nothing else. -/
def Renderer.call (r : Renderer) (name : String) (d : Data) (bundle : Option Bundle) (s : Scope) :
    Except RenderError String × Unit × Scope :=
  let (result, s) := r.renderInScope name d bundle s
  (result, (), s)

/-- Generating source and rendering a template give back every scope. -/
theorem scope_given_back :
    (∀ (g : Generator) (t : Tree) (bundle : Option Bundle), GivesBack (g.call t bundle)) ∧
    ∀ (r : Renderer) (name : String) (d : Data) (bundle : Option Bundle),
      GivesBack (r.call name d bundle) := by
  constructor
  · intro g t bundle
    refine ⟨fun s hf => ?_, ?_⟩
    · have hclosed := g.generateInScope_frame t bundle hf
      exact ⟨hclosed, _, Scope.enter_of_none hclosed⟩
    · obtain ⟨e, t', h⟩ := g.generateInScope_busy t bundle
      exact ⟨e, t', fun s hs => by rw [Generator.call, h s hs]⟩
  · intro r name d bundle
    refine ⟨fun s hf => ?_, ?_⟩
    · have hclosed := r.renderInScope_frame name d bundle hf
      exact ⟨hclosed, _, Scope.enter_of_none hclosed⟩
    · obtain ⟨e, h⟩ := r.renderInScope_busy name d bundle
      exact ⟨e, (), fun s hs => by rw [Renderer.call, h s hs]⟩

end TemplateLang
