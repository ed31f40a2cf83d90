import TemplateLang.Proofs.Escaping.Prepared

/-! The directives of prepared prints. Those that the source writes were checked, so the registry
supports them for the backend. The directive that preparation puts in front of them is not
checked: a registry without it leaves a print with a directive that nothing knows. A tree that
can be prepared again has no such print, and keeps its prints as they are. -/

namespace TemplateLang

variable {t t' : Tree} {n : NodeRef} {registry : Registry} {b : Backend} {e : Expr}
  {calls : List DirectiveCall} {escape : Option EscapeContext}

namespace NodeKind

/-- The directive calls of the print that a node may be are supported. -/
def Supported (registry : Registry) (b : Backend) (k : NodeKind) : Prop :=
  ∀ e calls escape, k = .print e calls escape → ∀ call ∈ calls, registry.Supports b call

/-- A print whose first directive is the default of its context, which the registry lacks. -/
def LacksEscape (registry : Registry) (k : NodeKind) : Prop :=
  ∃ e context calls, k = .print e (⟨context.defaultDirective, []⟩ :: calls) (some context) ∧
    registry.contains context.directive = false

theorem Supported.not_lacksEscape {k : NodeKind} (h : k.Supported registry b) :
    ¬ k.LacksEscape registry := by
  rintro ⟨e, context, calls, hk, hlacks⟩
  obtain ⟨d, hd, -⟩ := h e _ _ hk _ (List.mem_cons_self ..)
  rw [context.resolve_default, hlacks] at hd
  cases hd

theorem not_lacksEscape_full (k : NodeKind) : ¬ LacksEscape .full k := by
  rintro ⟨e, context, calls, -, hlacks⟩
  cases hlacks

/-- An escaped print has the directives it had, perhaps behind the default of its context. -/
theorem print_of_insertEscape {s : Bool} {k : NodeKind}
    (h : (insertEscape registry (.ok 0) (markSite s k).2).2 = .print e calls escape) :
    ∃ calls₀ escape₀, k = .print e calls₀ escape₀ ∧ (calls = calls₀ ∨
      ∃ context, escape = some context ∧ calls = ⟨context.defaultDirective, []⟩ :: calls₀) := by
  obtain ⟨e₀, calls₀, escape₀, hk, escape₁, hmark⟩ :
      ∃ e₀ calls₀ escape₀, k = .print e₀ calls₀ escape₀ ∧
        ∃ escape₁, (markSite s k).2 = .print e₀ calls₀ escape₁ := by
    cases k with
    | print e₀ calls₀ escape₀ =>
      cases escape₀ with
      | none => exact ⟨e₀, calls₀, none, rfl, _, rfl⟩
      | some context => exact ⟨e₀, calls₀, some context, rfl, _, rfl⟩
    | _ => cases h
  refine ⟨calls₀, escape₀, ?_⟩
  rw [hmark] at h
  cases escape₁ with
  | none =>
    obtain ⟨rfl, rfl, rfl⟩ := NodeKind.print.inj h
    exact ⟨hk, .inl rfl⟩
  | some context =>
    unfold insertEscape at h
    simp only at h
    split at h
    · obtain ⟨rfl, rfl, rfl⟩ := NodeKind.print.inj h
      exact ⟨hk, .inl rfl⟩
    · obtain ⟨rfl, rfl, rfl⟩ := NodeKind.print.inj h
      exact ⟨hk, .inl rfl⟩
    · obtain ⟨rfl, rfl, rfl⟩ := NodeKind.print.inj h
      exact ⟨hk, .inr ⟨context, rfl, rfl⟩⟩

end NodeKind

namespace Tree

theorem print_of_qualifyNames {ns : String} {k : NodeKind}
    (h : (NodeKind.qualifyName ns k).2 = .print e calls escape) : k = .print e calls escape := by
  cases k <;> first | exact h | cases h

/-- The directives that the source writes are supported. -/
theorem Loaded.supported_qualifyNames (h : t.Loaded)
    (hp : t.prepare registry (some b) = (.ok (), t')) (n : NodeRef) :
    (t.qualifyNames.kind n).Supported registry b := by
  obtain ⟨hcheck, -⟩ := prepare_eq_ok hp
  intro e calls escape hk call hc
  have hn := has_of_isPrint (t := t.qualifyNames) (n := n) (by rw [hk]; rfl)
  exact checkCall_eq_ok.mp (h.qualifyNames.checkDirectives_eq_ok.mp hcheck n hn e calls escape hk
    call hc)

/-- The directives of a prepared print are supported, but for one that preparation put in front. -/
theorem Loaded.supported_or_lacksEscape (h : t.Loaded)
    (hp : t.prepare registry (some b) = (.ok (), t')) (n : NodeRef) :
    (t'.kind n).Supported registry b ∨ (t'.kind n).LacksEscape registry := by
  by_cases hprint : (t'.kind n).isPrint
  · have hn : t.Has n := (sameShape_prepare hp).has.mp (has_of_isPrint hprint)
    have hchecked := h.supported_qualifyNames hp n
    have hkind := h.kind_prepare hp hn
    rw [← h.kind_qualifyNames hn] at hkind
    cases hk : t'.kind n with
    | print e calls escape =>
      obtain ⟨calls₀, escape₀, hk₀, hcalls⟩ := NodeKind.print_of_insertEscape (hkind.symm.trans hk)
      have hsupports := hchecked e calls₀ escape₀ hk₀
      rcases hcalls with rfl | ⟨context, rfl, rfl⟩
      · left
        rintro _ _ _ ⟨⟩
        exact hsupports
      · cases hcontains : registry.contains context.directive with
        | true =>
          left
          rintro _ _ _ ⟨⟩
          exact List.forall_mem_cons.mpr ⟨context.supports_default hcontains b, hsupports⟩
        | false => exact .inr ⟨e, context, calls₀, rfl, hcontains⟩
    | _ =>
      rw [hk] at hprint
      cases hprint
  · left
    intro e calls escape hk
    rw [hk] at hprint
    exact absurd rfl hprint

theorem Loaded.isPrint_of_prepare {backend : Option Backend} (h : t.Loaded)
    (hp : t.prepare registry backend = (.ok (), t')) (hn : (t'.kind n).isPrint) :
    (t.kind n).isPrint := by
  by_contra hno
  have hhas := (sameShape_prepare hp).has.mp (has_of_isPrint hn)
  have hkind := h.kind_prepare hp hhas
  cases hk : t.kind n <;> simp_all [NodeKind.isPrint, NodeKind.qualifyName, NodeKind.markSite,
    NodeKind.insertEscape]

end Tree

/-! ### A second preparation -/

namespace NodeKind

/-- An escaped print is marked as its template asks. -/
theorem markSite_insertEscape (s : Bool) (k : NodeKind) :
    (markSite s (insertEscape registry (.ok 0) (markSite s k).2).2).2 =
      (insertEscape registry (.ok 0) (markSite s k).2).2 := by
  have hcontext : ∀ e calls context,
      (markSite s (insertEscape registry (.ok 0) (.print e calls (some context))).2).2 =
        (insertEscape registry (.ok 0) (.print e calls (some context))).2 := by
    intro e calls context
    simp only [insertEscape]
    split <;> rfl
  cases k with
  | print e calls escape =>
    cases escape with
    | none =>
      cases s with
      | true => exact hcontext e calls .html
      | false => rfl
    | some context => exact hcontext e calls context
  | _ => rfl

/-- The default directive of a context cancels the escape that it is. -/
theorem cancelsAutoescape_default {context : EscapeContext} {d : Directive}
    (hd : registry.lookup context.defaultDirective = .ok d) : d.cancelsAutoescape := by
  have hname : d.name = context.directive.name := by
    rw [Registry.name_of_lookup hd, context.name_directive]
  obtain rfl := Directive.name_injective hname
  cases context <;> rfl

/-- Nothing is inserted into a print that has its default directive, if its directives are
known. -/
theorem insertEscape_insertEscape {k : NodeKind}
    (hknown : ∀ e calls escape, (insertEscape registry (.ok 0) k).2 = .print e calls escape →
      ∀ call ∈ calls, ∃ d, registry.lookup call.name = .ok d) :
    insertEscape registry (.ok 0) (insertEscape registry (.ok 0) k).2 =
      (.ok 0, (insertEscape registry (.ok 0) k).2) := by
  cases k with
  | print e calls escape =>
    cases escape with
    | none => rfl
    | some context =>
      cases hcancels : cancelsEscape registry calls with
      | error error =>
        simp only [insertEscape, hcancels] at hknown
        obtain ⟨b, hb, -⟩ := cancelsEscape_eq_ok (hknown e calls (some context) rfl)
        rw [hcancels] at hb
        cases hb
      | ok cancels =>
        cases cancels with
        | true => simp only [insertEscape, hcancels]
        | false =>
          simp only [insertEscape, hcancels] at hknown ⊢
          obtain ⟨d, hd⟩ := hknown e _ (some context) rfl _ (List.mem_cons_self ..)
          simp only [cancelsEscape, hd, ok_bind, cancelsAutoescape_default hd, if_true]
          rfl
  | _ => rfl

/-- A print that was escaped is escaped already, if its directives are known. -/
theorem insertEscape_again {s : Bool} {k k' : NodeKind}
    (hk : (insertEscape registry (.ok 0) (markSite s k).2).2 = k')
    (hknown : ∀ e calls escape, k' = .print e calls escape →
      ∀ call ∈ calls, ∃ d, registry.lookup call.name = .ok d) :
    (markSite s k').2 = k' ∧ insertEscape registry (.ok 0) k' = (.ok 0, k') := by
  subst hk
  exact ⟨markSite_insertEscape s k, insertEscape_insertEscape hknown⟩

theorem autoescape?_markSite (s : Bool) (k : NodeKind) :
    (markSite s k).2.autoescape? = k.autoescape? := by
  cases k with
  | print e calls escape => cases escape <;> rfl
  | _ => rfl

theorem autoescape?_insertEscape (s : Insertions) (k : NodeKind) :
    (insertEscape registry s k).2.autoescape? = k.autoescape? := by
  unfold insertEscape
  split
  · simp only
    split <;> rfl
  · rfl

end NodeKind

namespace Tree

theorem inherited_prepare {backend : Option Backend}
    (hp : t.prepare registry backend = (.ok (), t')) (n : NodeRef) :
    t'.inherited NodeKind.autoescape? n = t.inherited NodeKind.autoescape? n := by
  refine (sameShape_prepare hp).inherited_autoescape? (fun a => ?_) n
  obtain ⟨-, rfl⟩ := prepare_eq_ok hp
  rw [insertEscapes, autoescape?_mapKinds NodeKind.autoescape?_insertEscape, markEscapingSites,
    autoescape?_mapKinds NodeKind.autoescape?_markSite, autoescape?_qualifyNames]

/-- Preparing a prepared tree again leaves its prints. -/
theorem Loaded.prepare_again {t'' : Tree} {backend : Option Backend} (h : t.Loaded)
    (hp : t.prepare registry (some b) = (.ok (), t'))
    (hp' : t'.prepare registry backend = (.ok (), t'')) (hn : (t'.kind n).isPrint) :
    t''.kind n = t'.kind n := by
  have h' := h.prepare hp
  have hhas' := has_of_isPrint hn
  have hhas := (sameShape_prepare hp).has.mp hhas'
  obtain ⟨hcheck, -⟩ := prepare_eq_ok hp'
  have hquals : ∀ ns, (NodeKind.qualifyName ns (t'.kind n)).2 = t'.kind n := by
    intro ns
    cases hk : t'.kind n with
    | print => rfl
    | _ =>
      rw [hk] at hn
      cases hn
  have hq : t'.qualifyNames.kind n = t'.kind n := by rw [h'.kind_qualifyNames hhas', hquals]
  have hhas₁ : t'.qualifyNames.Has n := (sameShape_mapKinds t' _ _ _).has.mpr hhas'
  obtain ⟨hmark, hinsert⟩ := NodeKind.insertEscape_again (h.kind_prepare hp hhas).symm
    fun e calls escape hk call hc =>
      h'.qualifyNames.lookup_of_checkDirectives hcheck hhas₁ (hq.trans hk) hc
  rw [h'.kind_prepare hp' hhas', hquals, inherited_prepare hp, hmark, hinsert]

end Tree

end TemplateLang
