import TemplateLang.Directive.Registry
import TemplateLang.Proofs.Result

/-! Directive calls. A call is supported for a backend when the registry knows its directive, the
directive accepts as many arguments as the call gives, and it has a form for the backend.
What the arguments are does not matter. -/

namespace TemplateLang

variable {r : Registry} {b : Backend} {d : Directive} {call call' : DirectiveCall}
  {e : CompileError} {name : String}

namespace Directive

theorem mem_all (d : Directive) : d ∈ all := by cases d <;> decide

theorem name_injective {d' : Directive} (h : d.name = d'.name) : d = d' := by
  have hall : ∀ d ∈ all, ∀ d' ∈ all, d.name = d'.name → d = d' := by decide
  exact hall d (mem_all d) d' (mem_all d') h

/-- Every directive has a form for the interpreter. -/
theorem supports_interpreter (d : Directive) : d.supports .interpreter := by cases d <;> rfl

end Directive

namespace CompileError

/-- Whether an error says that a directive is not known, does not accept its number of arguments
or has no form for a backend. -/
def isAboutDirective : CompileError → Bool
  | .unknownDirective .. | .arity .. | .unsupportedDirective .. => true
  | _ => false

@[simp] theorem isAboutDirective_atSite (site : String) (e : CompileError) :
    (e.atSite site).isAboutDirective = e.isAboutDirective := by cases e <;> rfl

end CompileError

namespace Registry

theorem lookup_name (r : Registry) (d : Directive) :
    r.lookup d.name =
      if r.contains d then .ok d else .error (.unknownDirective d.name none) := by
  have hmem : ∀ d', d' ∈ r.toList ↔ r.contains d' := by
    intro d'
    rw [toList, List.mem_filter]
    exact and_iff_right d'.mem_all
  unfold lookup
  cases hfind : r.toList.find? (·.name = d.name) with
  | none =>
    have hnot : ¬ r.contains d := by
      intro hd
      have := List.find?_eq_none.mp hfind d ((hmem d).mpr hd)
      simp at this
    rw [if_neg hnot]
  | some d' =>
    obtain rfl : d' = d := Directive.name_injective (by simpa using List.find?_some hfind)
    rw [if_pos ((hmem d').mp (List.mem_of_find?_eq_some hfind))]

theorem isAboutDirective_of_lookup (h : r.lookup name = .error e) : e.isAboutDirective := by
  unfold lookup at h
  split at h
  · cases h
  · obtain rfl := Except.error.inj h
    rfl

theorem isAboutDirective_of_resolve (h : r.resolve call = .error e) : e.isAboutDirective := by
  rw [resolve, bind_eq_error] at h
  rcases h with h | ⟨d, -, h⟩
  · exact isAboutDirective_of_lookup h
  · rw [bind_eq_error] at h
    rcases h with h | ⟨-, -, h⟩
    · rw [Directive.checkArity] at h
      split at h
      · cases h
      · obtain rfl := Except.error.inj h
        rfl
    · cases h

theorem name_of_lookup (h : r.lookup name = .ok d) : d.name = name := by
  unfold lookup at h
  split at h
  · next d' hfind =>
    obtain rfl := Except.ok.inj h
    simpa using List.find?_some hfind
  · cases h

/-- A call that resolves names its directive, with a number of arguments that it accepts. -/
theorem of_resolve (h : r.resolve call = .ok d) :
    d.name = call.name ∧ d.sizes.contains call.args.length := by
  obtain ⟨d', hlookup, h⟩ := bind_eq_ok.mp h
  obtain ⟨_, harity, h⟩ := bind_eq_ok.mp h
  obtain rfl : d' = d := Except.ok.inj h
  refine ⟨name_of_lookup hlookup, ?_⟩
  rw [Directive.checkArity] at harity
  split at harity
  · assumption
  · cases harity

/-- Only the name of a call and the number of its arguments matter. -/
theorem resolve_congr (hname : call'.name = call.name)
    (hargs : call'.args.length = call.args.length) : r.resolve call' = r.resolve call := by
  rw [resolve, resolve, hname, hargs]

/-- The registry knows the directive of the call, which accepts its number of arguments and has a
form for the backend. -/
def Supports (r : Registry) (b : Backend) (call : DirectiveCall) : Prop :=
  ∃ d, r.resolve call = .ok d ∧ d.supports b

theorem Supports.congr (h : r.Supports b call) (hname : call'.name = call.name)
    (hargs : call'.args.length = call.args.length) : r.Supports b call' := by
  rwa [Supports, resolve_congr hname hargs]

/-- As above, for a backend if one is given. -/
def Passes (r : Registry) (backend : Option Backend) (call : DirectiveCall) : Prop :=
  ∃ d, r.resolve call = .ok d ∧ ∀ b ∈ backend, d.supports b

theorem passes_some : r.Passes (some b) call ↔ r.Supports b call := by
  simp [Passes, Supports]

theorem Supports.interpreter (h : r.Supports b call) : r.Supports .interpreter call := by
  obtain ⟨d, hd, -⟩ := h
  exact ⟨d, hd, d.supports_interpreter⟩

end Registry

/-! ### Default directives -/

namespace EscapeContext

/-- The directive that escapes for this context. -/
def directive : EscapeContext → Directive
  | .html => .escapeHtml
  | .jsString => .escapeJsString
  | .uri => .escapeUri

theorem name_directive (c : EscapeContext) : c.directive.name = c.defaultDirective := by
  cases c <;> rfl

/-- The call of a default directive resolves exactly when the registry has the directive. -/
theorem resolve_default (r : Registry) (c : EscapeContext) :
    r.resolve ⟨c.defaultDirective, []⟩ =
      if r.contains c.directive then .ok c.directive
      else .error (.unknownDirective c.defaultDirective none) := by
  rw [Registry.resolve, ← c.name_directive, r.lookup_name]
  cases r.contains c.directive with
  | true => cases c <;> rfl
  | false => rfl

theorem passes_default {c : EscapeContext} (h : r.contains c.directive)
    (backend : Option Backend) : r.Passes backend ⟨c.defaultDirective, []⟩ := by
  refine ⟨c.directive, by rw [c.resolve_default, if_pos h], fun b _ => ?_⟩
  cases c <;> cases b <;> rfl

theorem supports_default {c : EscapeContext} (h : r.contains c.directive) (b : Backend) :
    r.Supports b ⟨c.defaultDirective, []⟩ :=
  Registry.passes_some.mp (passes_default h (some b))

end EscapeContext

end TemplateLang
