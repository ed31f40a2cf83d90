import TemplateLang.Proofs.Direction.Folded
import TemplateLang.Proofs.Escaping.Prepared

/-! What preparation guarantees. Every print of a loaded tree has the escape that its context or
its template asks for, nothing else changes but names, and what later passes make of the tree
has no prints with other directives or contexts. -/

namespace TemplateLang

variable {t t' : Tree} {n x : NodeRef} {registry : Registry} {backend : Option Backend}

/-- What preparation makes of a print of a template that escapes or does not. -/
inductive Escaped (registry : Registry) (autoescape : Bool) : NodeKind → NodeKind → Prop
  | plain {e : Expr} {calls : List DirectiveCall} (h : autoescape = false) :
    Escaped registry autoescape (.print e calls none) (.print e calls none)
  | cancelled {e : Expr} {calls : List DirectiveCall} {escape : Option EscapeContext}
    {context : EscapeContext}
    (hc : escape = some context ∨ escape = none ∧ autoescape = true ∧ context = .html)
    (h : ∃ call ∈ calls, Cancels registry call) :
    Escaped registry autoescape (.print e calls escape) (.print e calls (some context))
  | inserted {e : Expr} {calls : List DirectiveCall} {escape : Option EscapeContext}
    {context : EscapeContext}
    (hc : escape = some context ∨ escape = none ∧ autoescape = true ∧ context = .html)
    (h : ¬ ∃ call ∈ calls, Cancels registry call) :
    Escaped registry autoescape (.print e calls escape)
      (.print e (⟨context.defaultDirective, []⟩ :: calls) (some context))

theorem escaped_of_context {autoescape : Bool} {e : Expr} {calls : List DirectiveCall}
    {escape : Option EscapeContext} {context : EscapeContext}
    (hknown : ∀ call ∈ calls, ∃ d, registry.lookup call.name = .ok d)
    (hc : escape = some context ∨ escape = none ∧ autoescape = true ∧ context = .html) :
    Escaped registry autoescape (.print e calls escape)
      (NodeKind.insertEscape registry (.ok 0) (.print e calls (some context))).2 := by
  obtain ⟨b, hb, hiff⟩ := cancelsEscape_eq_ok hknown
  simp only [NodeKind.insertEscape, hb]
  cases b with
  | true => exact .cancelled hc (hiff.mp rfl)
  | false => exact .inserted hc fun h => absurd (hiff.mpr h) (by simp)

theorem escaped_of_known {autoescape : Bool} {e : Expr} {calls : List DirectiveCall}
    (escape : Option EscapeContext)
    (hknown : ∀ call ∈ calls, ∃ d, registry.lookup call.name = .ok d) :
    Escaped registry autoescape (.print e calls escape) (NodeKind.insertEscape registry (.ok 0)
      (NodeKind.markSite autoescape (.print e calls escape)).2).2 := by
  cases escape with
  | some context => exact escaped_of_context hknown (.inl rfl)
  | none =>
    cases autoescape with
    | true => exact escaped_of_context hknown (.inr ⟨rfl, rfl, rfl⟩)
    | false => exact .plain rfl

theorem not_isPrint_of_autoescape? {k : NodeKind} {b : Bool} (h : k.autoescape? = some b) :
    ∃ name isOverride, k = .template name isOverride b := by
  cases k with
  | template name isOverride autoescape =>
    obtain rfl : autoescape = b := Option.some.inj h
    exact ⟨name, isOverride, rfl⟩
  | _ => cases h

namespace Tree

/-- A print of a loaded tree is in a template. -/
theorem Loaded.exists_template (h : t.Loaded) (hn : t.Has n) (hp : (t.kind n).isPrint) :
    ∃ m name isOverride autoescape, t.nearestAncestor n NodeKind.isTemplate = some m ∧
      t.kind m = .template name isOverride autoescape ∧
      t.inherited NodeKind.autoescape? n = some autoescape := by
  have hdepth : 2 < (t.level n).depth := by
    rw [level]
    cases hk : t.kind n with
    | print => exact Nat.lt_add_one 2
    | _ => simp [hk, NodeKind.isPrint] at hp
  obtain ⟨m, b, hm, hb, hinherited⟩ := h.exists_inherited NodeKind.carries_markSite hn hdepth
  obtain ⟨name, isOverride, hk⟩ := not_isPrint_of_autoescape? hb
  exact ⟨m, name, isOverride, b, hm, hk, hinherited⟩

theorem Loaded.escaped_prepare (h : t.Loaded) (hp : t.prepare registry backend = (.ok (), t'))
    (hn : t.Has n) (hprint : (t.kind n).isPrint) {autoescape : Bool}
    (ha : t.inherited NodeKind.autoescape? n = some autoescape) :
    Escaped registry autoescape (t.kind n) (t'.kind n) := by
  obtain ⟨hcheck, -⟩ := prepare_eq_ok hp
  have hn₁ : t.qualifyNames.Has n := (sameShape_mapKinds t _ _ _).has.mpr hn
  have hkind := h.kind_qualifyNames hn
  rw [h.kind_prepare hp hn, ha, Option.getD_some]
  cases hk : t.kind n with
  | print e calls escape =>
    rw [hk] at hkind
    exact escaped_of_known escape fun call hc =>
      h.qualifyNames.lookup_of_checkDirectives hcheck hn₁ hkind hc
  | _ => simp [hk, NodeKind.isPrint] at hprint

theorem Loaded.kind_prepare_of_not_isPrint (h : t.Loaded)
    (hp : t.prepare registry backend = (.ok (), t')) (hn : t.Has n)
    (hprint : (t.kind n).isPrint = false) :
    t'.kind n = (NodeKind.qualifyName ((t.inherited NodeKind.ns? n).getD "") (t.kind n)).2 := by
  rw [h.kind_prepare hp hn]
  cases hk : t.kind n with
  | print => simp [hk, NodeKind.isPrint] at hprint
  | _ => rfl

/-! ### Folding -/

theorem names_foldCalls (d : Direction) (calls : List DirectiveCall) :
    (foldCalls d calls).2.map DirectiveCall.name = calls.map DirectiveCall.name := by
  rw [foldCalls_eq_map, List.map_map]
  rfl

theorem print_of_fold {d : Direction} {count : ℕ} {k : NodeKind} {e : Expr}
    {calls : List DirectiveCall} {escape : Option EscapeContext}
    (h : (k.fold d count).2 = .print e calls escape) :
    ∃ e₀ calls₀, k = .print e₀ calls₀ escape ∧
      calls.map DirectiveCall.name = calls₀.map DirectiveCall.name := by
  cases k with
  | print e₀ calls₀ escape₀ =>
    simp only [NodeKind.fold, NodeKind.print.injEq] at h
    obtain ⟨-, rfl, rfl⟩ := h
    exact ⟨e₀, calls₀, rfl, names_foldCalls d calls₀⟩
  | _ => cases h

theorem print_of_optimizeBidi {s : Scope} {e : Expr} {calls : List DirectiveCall}
    {escape : Option EscapeContext} (h : (t.optimizeBidi s).2.kind x = .print e calls escape) :
    ∃ e₀ calls₀, t.kind x = .print e₀ calls₀ escape ∧
      calls.map DirectiveCall.name = calls₀.map DirectiveCall.name := by
  unfold optimizeBidi at h
  split at h
  · exact ⟨e, calls, h, rfl⟩
  · next d _ =>
    rcases kind_mapKinds_cases t (fun kind => !kind.isPrint) (NodeKind.fold d) 0 x with
      hk | ⟨count, hk⟩
    · exact ⟨e, calls, hk.symm.trans h, rfl⟩
    · exact print_of_fold (hk.symm.trans h)

/-- Preparation escapes the prints of a loaded tree and leaves the rest but for names, and
replacing messages and folding directions make no prints with other directives or contexts. -/
theorem prepare_escapes {fresh : ℕ} {text : String} (hload : Tree.load fresh text = .ok t)
    (hprepare : t.prepare registry backend = (.ok (), t')) :
    SameShape t t' ∧
      (∀ n ∈ t.descendants root, (t.kind n).isPrint →
        ∃ m name isOverride autoescape, t.nearestAncestor n NodeKind.isTemplate = some m ∧
          t.kind m = .template name isOverride autoescape ∧
          Escaped registry autoescape (t.kind n) (t'.kind n)) ∧
      (∀ n ∈ t.descendants root, (t.kind n).isPrint = false →
        t'.kind n = (NodeKind.qualifyName ((t.inherited NodeKind.ns? n).getD "") (t.kind n)).2) ∧
      ∀ (bundle : Option Bundle) (s : Scope), ∀ x ∈
        ((t'.insertMessages bundle).2.optimizeBidi s).2.descendants root, ∀ e calls escape,
        ((t'.insertMessages bundle).2.optimizeBidi s).2.kind x = .print e calls escape →
        ∃ y ∈ t'.descendants root, ∃ e₀ calls₀, t'.kind y = .print e₀ calls₀ escape ∧
          calls.map DirectiveCall.name = calls₀.map DirectiveCall.name := by
  have h := loaded_of_load hload
  have h' := h.prepare hprepare
  have hhas : ∀ n ∈ t.descendants root, t.Has n := fun n hn =>
    (h.consistent.mem_descendants.mp hn).has h.consistent.has_root
  refine ⟨sameShape_prepare hprepare, fun n hn hprint => ?_, fun n hn hprint => ?_, ?_⟩
  · obtain ⟨m, name, isOverride, autoescape, hm, hk, ha⟩ := h.exists_template (hhas n hn) hprint
    exact ⟨m, name, isOverride, autoescape, hm, hk,
      h.escaped_prepare hprepare (hhas n hn) hprint ha⟩
  · exact h.kind_prepare_of_not_isPrint hprepare (hhas n hn) hprint
  · intro bundle s x _ e calls escape hx
    obtain ⟨e₀, calls₀, hk, hnames⟩ := print_of_optimizeBidi hx
    obtain ⟨y, hy⟩ := printsFrom_insertMessages t' bundle x (by rw [hk]; rfl)
    rw [hk] at hy
    have hhas' : t'.Has y := by
      by_contra hnot
      rw [kind, node_of_not_has hnot] at hy
      cases hy
    exact ⟨y, h'.consistent.mem_descendants.mpr (h'.reaches_root hhas'), e₀, calls₀, hy, hnames⟩

/-! ### A greeting -/

/-- A template with a message that greets somebody. -/
def greetingText : String :=
  "[[[\"hello.tmpl\",\"app\",[[\".hello\",false,true,[[\"msg\",\"greeting\",\"\"," ++
    "[[\"text\",\"Hello \"],[\"print\",\x7b\"data\":[\"name\"]\x7d]]]]]]]]]"

def greeting : Tree :=
  ⟨#[⟨0, .fileSet, none, [⟨1⟩]⟩, ⟨1, .file "hello.tmpl" "app", some root, [⟨2⟩]⟩,
    ⟨2, .template ".hello" false true, some ⟨1⟩, [⟨3⟩]⟩,
    ⟨3, .msg "greeting" "", some ⟨2⟩, [⟨4⟩, ⟨5⟩]⟩, ⟨4, .text "Hello ", some ⟨3⟩, []⟩,
    ⟨5, .print (.data ["name"]) [] none, some ⟨3⟩, []⟩], 6⟩

/-- The greeting with its escapes. -/
def preparedGreeting : Tree := (greeting.prepare .full none).2

theorem load_greetingText : Tree.load 0 greetingText = .ok greeting := by decide +kernel

theorem prepare_greeting : greeting.prepare .full none = (.ok (), preparedGreeting) :=
  Prod.ext (by decide +kernel) rfl

/-- The print of the greeting is escaped, and its text is left. -/
theorem prepare_escapes_greeting :
    Escaped .full true (.print (.data ["name"]) [] none) (preparedGreeting.kind ⟨5⟩) ∧
      preparedGreeting.kind ⟨4⟩ = .text "Hello " := by
  obtain ⟨-, hprints, hothers, -⟩ := prepare_escapes load_greetingText prepare_greeting
  obtain ⟨m, name, isOverride, autoescape, hm, hk, he⟩ :=
    hprints ⟨5⟩ (by decide +kernel) (by decide +kernel)
  have htemplate : greeting.nearestAncestor ⟨5⟩ NodeKind.isTemplate = some ⟨2⟩ := by
    decide +kernel
  obtain rfl : m = ⟨2⟩ := Option.some.inj (hm.symm.trans htemplate)
  have hescapes : greeting.kind ⟨2⟩ = .template ".hello" false true := by decide +kernel
  rw [hescapes] at hk
  cases hk
  exact ⟨he, hothers ⟨4⟩ (by decide +kernel) (by decide +kernel)⟩

end Tree

end TemplateLang
