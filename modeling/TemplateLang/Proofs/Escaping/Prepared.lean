import TemplateLang.Direction.Folding
import TemplateLang.Prepare
import TemplateLang.Proofs.Directive.Calls
import TemplateLang.Proofs.Message.Prints
import TemplateLang.Proofs.Tree.Scopes

/-! Prepared trees. The three passes of preparation change kinds only: names become full, prints
of templates that escape get a context, and a print with a context gets the directive of the
context in front, unless one of its own cancels it. -/

namespace TemplateLang

variable {t t' : Tree} {n m p x : NodeRef} {registry : Registry} {backend : Option Backend}

namespace NodeKind

/-- The namespace that a file sets. -/
def ns? : NodeKind → Option String
  | .file _ ns => some ns
  | _ => none

/-- Whether a template escapes. -/
def autoescape? : NodeKind → Option Bool
  | .template _ _ autoescape => some autoescape
  | _ => none

def isTemplate (k : NodeKind) : Bool := k.autoescape?.isSome

theorem carries_qualifyName : Tree.Carries qualifyName ns? 1 where
  depth_lt := by decide
  sets k := by cases k <;> simp [ns?, level, Level.depth]
  carry s k := by cases k <;> rfl
  blind s s' k hk := by
    cases k with
    | template | call => simp [level, Level.depth] at hk
    | _ => rfl
  level s k := by cases k <;> rfl

theorem level_markSite (s : Bool) (k : NodeKind) : (markSite s k).2.level = k.level := by
  cases k with
  | print expr directives escape => cases escape <;> rfl
  | _ => rfl

theorem carries_markSite : Tree.Carries markSite autoescape? 2 where
  depth_lt := by decide
  sets k := by cases k <;> simp [autoescape?, level, Level.depth]
  carry s k := by
    cases k with
    | print expr directives escape => cases escape <;> rfl
    | _ => rfl
  blind s s' k hk := by
    cases k with
    | print => simp [level, Level.depth] at hk
    | _ => rfl
  level := level_markSite

theorem level_insertEscape (s : Insertions) (k : NodeKind) :
    (insertEscape registry s k).2.level = k.level := by
  unfold insertEscape
  split
  · simp only
    split <;> rfl
  · rfl

theorem opensBlock_qualifyName (s : String) (k : NodeKind) :
    (qualifyName s k).2.opensBlock = k.opensBlock := by cases k <;> rfl

theorem opensBlock_markSite (s : Bool) (k : NodeKind) :
    (markSite s k).2.opensBlock = k.opensBlock := by
  cases k with
  | print expr directives escape => cases escape <;> rfl
  | _ => rfl

theorem opensBlock_insertEscape (s : Insertions) (k : NodeKind) :
    (insertEscape registry s k).2.opensBlock = k.opensBlock := by
  unfold insertEscape
  split
  · simp only
    split <;> rfl
  · rfl

theorem leaf_of_not_holdsNames (k : NodeKind) (hk : k.holdsNames = false) : k.level = .leaf := by
  cases k <;> simp_all [holdsNames, level]

theorem leaf_of_isPrint (k : NodeKind) (hk : (!k.isPrint) = false) : k.level = .leaf := by
  cases k <;> simp_all [isPrint, level]

end NodeKind

/-! ### Names and marks -/

namespace Tree

theorem Loaded.qualifyNames (h : t.Loaded) : t.qualifyNames.Loaded :=
  h.mapKinds NodeKind.carries_qualifyName.level ""

theorem Loaded.kind_qualifyNames (h : t.Loaded) (hn : t.Has n) :
    t.qualifyNames.kind n =
      (NodeKind.qualifyName ((t.inherited NodeKind.ns? n).getD "") (t.kind n)).2 :=
  h.kind_mapKinds NodeKind.carries_qualifyName NodeKind.leaf_of_not_holdsNames "" hn

theorem Loaded.markEscapingSites (h : t.Loaded) : t.markEscapingSites.Loaded :=
  h.mapKinds NodeKind.level_markSite false

theorem Loaded.kind_markEscapingSites (h : t.Loaded) (hn : t.Has n) :
    t.markEscapingSites.kind n =
      (NodeKind.markSite ((t.inherited NodeKind.autoescape? n).getD false) (t.kind n)).2 :=
  h.kind_mapKinds NodeKind.carries_markSite NodeKind.leaf_of_isPrint false hn

end Tree

/-! ### Checked directives -/

/-- The call names a directive of the registry that cancels the escape of its print. -/
def Cancels (registry : Registry) (call : DirectiveCall) : Prop :=
  ∃ d, registry.lookup call.name = .ok d ∧ d.cancelsAutoescape

theorem cancelsEscape_eq_ok {calls : List DirectiveCall}
    (h : ∀ call ∈ calls, ∃ d, registry.lookup call.name = .ok d) :
    ∃ b, cancelsEscape registry calls = .ok b ∧
      (b = true ↔ ∃ call ∈ calls, Cancels registry call) := by
  induction calls with
  | nil => exact ⟨false, rfl, by simp⟩
  | cons call calls ih =>
    obtain ⟨d, hd⟩ := h call (List.mem_cons_self ..)
    obtain ⟨b, hb, hiff⟩ := ih fun call hc => h call (List.mem_cons_of_mem _ hc)
    have hcall : Cancels registry call ↔ d.cancelsAutoescape := by
      constructor
      · rintro ⟨d', hd', hcancels⟩
        obtain rfl : d = d' := Except.ok.inj (hd.symm.trans hd')
        exact hcancels
      · exact fun hcancels => ⟨d, hd, hcancels⟩
    by_cases hc : d.cancelsAutoescape = true
    · refine ⟨true, ?_, ?_⟩
      · rw [cancelsEscape, hd, ok_bind, if_pos hc]
        rfl
      · simp [hcall, hc]
    · refine ⟨b, ?_, ?_⟩
      · rw [cancelsEscape, hd, ok_bind, if_neg hc, hb]
      · simp [hcall, hc, hiff]

namespace Tree

theorem Consistent.nodesWhere_eq (h : t.Consistent) {enters : NodeKind → Bool}
    (leaf : ∀ x, enters (t.kind x) = false → t.children x = []) (n : NodeRef) :
    (t.view n).nodesWhere enters = (t.view n).nodes := by
  induction n using h.children_induction with
  | step n ih =>
    rw [h.view_eq n, View.nodes_node, View.nodesWhere, View.listNodesWhere_eq_flatMap,
      List.flatMap_map, List.flatMap_map]
    by_cases he : enters (t.kind n)
    · rw [if_pos he, List.flatMap_congr ih]
    · rw [if_neg he, leaf n (by simpa using he)]
      rfl

/-- Checking a call succeeds when the registry lets it pass, whatever print it is of. -/
theorem checkCall_eq_ok_iff_passes {call : DirectiveCall} :
    t.checkCall registry backend n call = .ok () ↔ registry.Passes backend call := by
  unfold checkCall Registry.Passes
  cases hresolve : registry.resolve call with
  | error e => simp [Except.mapError]
  | ok d =>
    cases backend with
    | none => simp [Except.mapError, pure, Except.pure]
    | some b =>
      simp only [Except.mapError, ok_bind, Option.mem_def, Option.some.injEq, forall_eq',
        Except.ok.injEq, exists_eq_left']
      cases d.supports b with
      | true => simp [pure, Except.pure]
      | false => simp

/-- Checking a call for a backend succeeds when the registry supports it there. -/
theorem checkCall_eq_ok {b : Backend} {call : DirectiveCall} :
    t.checkCall registry (some b) n call = .ok () ↔ registry.Supports b call :=
  checkCall_eq_ok_iff_passes.trans Registry.passes_some

/-- A checked tree is one whose directive calls all pass. -/
theorem Loaded.checkDirectives_eq_ok (h : t.Loaded) :
    t.checkDirectives registry backend = .ok () ↔
      ∀ n, t.Has n → ∀ e calls escape, t.kind n = .print e calls escape →
        ∀ call ∈ calls, t.checkCall registry backend n call = .ok () := by
  have hleaf : ∀ x, (!(t.kind x).isPrint) = false → t.children x = [] := fun x hx =>
    h.leveled.children_eq_nil h.consistent (NodeKind.leaf_of_isPrint _ hx)
  rw [checkDirectives, h.consistent.nodesWhere_eq hleaf, forM_eq_ok]
  constructor
  · intro hcheck n hn e calls escape hk
    have hnode := hcheck _ (h.consistent.mem_nodes_view.mpr ⟨n, h.reaches_root hn, rfl⟩)
    rw [checkNode, kind_view, hk, ref_view] at hnode
    exact forM_eq_ok.mp hnode
  · intro hcalls w hw
    obtain ⟨n, hn, rfl⟩ := h.consistent.mem_nodes_view.mp hw
    rw [checkNode, kind_view, ref_view]
    cases hk : t.kind n with
    | print e calls escape =>
      exact forM_eq_ok.mpr (hcalls n (hn.has h.consistent.has_root) e calls escape hk)
    | _ => rfl

/-- The directives of a checked tree are known. -/
theorem Loaded.lookup_of_checkDirectives (h : t.Loaded)
    (hcheck : t.checkDirectives registry backend = .ok ()) (hn : t.Has n) {e : Expr}
    {calls : List DirectiveCall} {escape : Option EscapeContext}
    (hk : t.kind n = .print e calls escape) {call : DirectiveCall} (hc : call ∈ calls) :
    ∃ d, registry.lookup call.name = .ok d := by
  have hcall := h.checkDirectives_eq_ok.mp hcheck n hn e calls escape hk call hc
  obtain ⟨d, hd, -⟩ := bind_eq_ok.mp hcall
  cases hresolve : registry.resolve call with
  | error e =>
    rw [hresolve] at hd
    cases hd
  | ok d =>
    obtain ⟨d', hlookup, -⟩ := bind_eq_ok.mp hresolve
    exact ⟨d', hlookup⟩

/-! ### Inserted directives -/

/-- Whether all directive calls of a tree are known. -/
def Known (registry : Registry) (t : Tree) : Prop :=
  ∀ x e calls escape, t.Has x → t.kind x = .print e calls escape →
    ∀ call ∈ calls, ∃ d, registry.lookup call.name = .ok d

theorem insertEscape_of_known {k : NodeKind} (hk : ∀ e calls escape, k = .print e calls escape →
    ∀ call ∈ calls, ∃ d, registry.lookup call.name = .ok d) (count : ℕ) :
    (NodeKind.insertEscape registry (.ok count) k).2 =
        (NodeKind.insertEscape registry (.ok 0) k).2 ∧
      ∃ count', (NodeKind.insertEscape registry (.ok count) k).1 = .ok count' := by
  cases k with
  | print e calls escape =>
    cases escape with
    | none => exact ⟨rfl, count, rfl⟩
    | some context =>
      obtain ⟨b, hb, -⟩ := cancelsEscape_eq_ok (hk e calls _ rfl)
      simp only [NodeKind.insertEscape, hb]
      cases b with
      | true => exact ⟨rfl, count, rfl⟩
      | false => exact ⟨rfl, count + 1, rfl⟩
  | _ => exact ⟨rfl, count, rfl⟩

/-- Where all directives are known, the pass does not stop. -/
theorem Loaded.scoped_insertEscapes (h : t.Loaded) (hknown : Known registry t) :
    Scoped t (fun kind => !kind.isPrint) (NodeKind.insertEscape registry)
      (fun x => (NodeKind.insertEscape registry (.ok 0) (t.kind x)).2)
      (fun _ s => ∃ count, s = .ok count) := by
  refine ⟨fun x hx => ?_, fun x p s hp hs => ?_, fun x p s _ hs => hs⟩
  · exact h.leveled.children_eq_nil h.consistent (NodeKind.leaf_of_isPrint _ hx)
  · obtain ⟨count, rfl⟩ := hs
    exact insertEscape_of_known (fun e calls escape => hknown x e calls escape
      (has_of_parent hp)) count

theorem Loaded.insertEscape_root (h : t.Loaded) (hknown : Known registry t) :
    ∃ count, (NodeKind.insertEscape registry (.ok 0) (t.kind root)).1 = .ok count :=
  (insertEscape_of_known (fun e calls escape => hknown root e calls escape
    h.consistent.has_root) 0).2

theorem Loaded.kind_insertEscapes (h : t.Loaded) (hknown : Known registry t) (hn : t.Has n) :
    (t.insertEscapes registry).2.kind n =
      (NodeKind.insertEscape registry (.ok 0) (t.kind n)).2 :=
  h.consistent.kind_mapKinds (h.scoped_insertEscapes hknown) rfl (h.insertEscape_root hknown)
    (h.reaches_root hn)

theorem Loaded.insertEscapes_eq_ok (h : t.Loaded) (hknown : Known registry t) :
    ∃ count, (t.insertEscapes registry).1 = .ok count :=
  (h.consistent.mapKinds_view (h.scoped_insertEscapes hknown) rfl
    (h.insertEscape_root hknown)).2

theorem Loaded.insertEscapes (h : t.Loaded) (registry : Registry) :
    (t.insertEscapes registry).2.Loaded :=
  h.mapKinds NodeKind.level_insertEscape (.ok 0)

/-- The directives of a checked tree are known, and marking prints leaves them. -/
theorem Loaded.known_markEscapingSites (h : t.Loaded)
    (hcheck : t.checkDirectives registry backend = .ok ()) :
    Known registry t.markEscapingSites := by
  intro x e calls escape hx hk
  have hx₁ : t.Has x := (sameShape_mapKinds t _ _ _).has.mp hx
  rw [h.kind_markEscapingSites hx₁] at hk
  obtain ⟨escape', hk'⟩ : ∃ escape', t.kind x = .print e calls escape' := by
    cases hkind : t.kind x with
    | print e' calls' escape' =>
      rw [hkind] at hk
      cases escape' <;> cases hk <;> exact ⟨_, rfl⟩
    | _ =>
      rw [hkind] at hk
      cases hk
  exact fun call hc => h.lookup_of_checkDirectives hcheck hx₁ hk' hc

/-! ### The whole preparation -/

theorem prepare_eq_ok (h : t.prepare registry backend = (.ok (), t')) :
    t.qualifyNames.checkDirectives registry backend = .ok () ∧
      t' = (t.qualifyNames.markEscapingSites.insertEscapes registry).2 := by
  rw [prepare] at h
  cases hover : t.qualifyNames.checkOverrides with
  | error e => simp [hover] at h
  | ok _ =>
    cases hcheck : t.qualifyNames.checkDirectives registry backend with
    | error e => simp [hover, hcheck] at h
    | ok _ =>
      simp only [hover, hcheck] at h
      exact ⟨rfl, (Prod.mk.inj h).2.symm⟩

/-- Preparation fails where names are repeated or a directive does not pass, and nowhere else. -/
theorem Loaded.prepare_eq_error (h : t.Loaded) {e : CompileError}
    (hp : t.prepare registry backend = (.error e, t')) :
    t.qualifyNames.checkOverrides = .error e ∨
      t.qualifyNames.checkDirectives registry backend = .error e := by
  rw [Tree.prepare] at hp
  cases hover : t.qualifyNames.checkOverrides with
  | error e' =>
    simp only [hover] at hp
    exact .inl (congrArg Except.error (Except.error.inj (Prod.mk.inj hp).1))
  | ok _ =>
    cases hcheck : t.qualifyNames.checkDirectives registry backend with
    | error e' =>
      simp only [hover, hcheck] at hp
      exact .inr (congrArg Except.error (Except.error.inj (Prod.mk.inj hp).1))
    | ok _ =>
      have hknown := h.qualifyNames.known_markEscapingSites hcheck
      obtain ⟨count, hcount⟩ := h.qualifyNames.markEscapingSites.insertEscapes_eq_ok hknown
      simp only [hover, hcheck, hcount] at hp
      cases (Prod.mk.inj hp).1

theorem sameShape_prepare (h : t.prepare registry backend = (.ok (), t')) : SameShape t t' := by
  obtain ⟨-, rfl⟩ := prepare_eq_ok h
  exact ((sameShape_mapKinds t _ _ _).trans (sameShape_mapKinds t.qualifyNames _ _ _)).trans
    (sameShape_mapKinds t.qualifyNames.markEscapingSites _ _ _)

theorem Loaded.prepare (h : t.Loaded) (hp : t.prepare registry backend = (.ok (), t')) :
    t'.Loaded := by
  obtain ⟨-, rfl⟩ := prepare_eq_ok hp
  exact h.qualifyNames.markEscapingSites.insertEscapes registry

theorem Opened.prepare (h : t.Opened) (hp : t.prepare registry backend = (.ok (), t')) :
    t'.Opened := by
  obtain ⟨-, rfl⟩ := prepare_eq_ok hp
  have hnames : t.qualifyNames.Opened :=
    h.mapKinds NodeKind.carries_qualifyName.level NodeKind.opensBlock_qualifyName ""
  have hmarks : t.qualifyNames.markEscapingSites.Opened :=
    hnames.mapKinds NodeKind.level_markSite NodeKind.opensBlock_markSite false
  exact hmarks.mapKinds NodeKind.level_insertEscape NodeKind.opensBlock_insertEscape (.ok 0)

theorem autoescape?_mapKinds {σ : Type} {enters : NodeKind → Bool}
    {step : σ → NodeKind → σ × NodeKind} (h : ∀ s k, (step s k).2.autoescape? = k.autoescape?)
    (t : Tree) (s : σ) (a : NodeRef) :
    ((t.mapKinds enters step s).2.kind a).autoescape? = (t.kind a).autoescape? := by
  rcases kind_mapKinds_cases t enters step s a with hk | ⟨s', hk⟩
  · rw [hk]
  · rw [hk, h]

theorem autoescape?_qualifyNames (t : Tree) (a : NodeRef) :
    (t.qualifyNames.kind a).autoescape? = (t.kind a).autoescape? :=
  autoescape?_mapKinds (fun s k => by cases k <;> rfl) t "" a

theorem SameShape.inherited_autoescape? (hs : SameShape t t')
    (ha : ∀ a, (t'.kind a).autoescape? = (t.kind a).autoescape?) (n : NodeRef) :
    t'.inherited NodeKind.autoescape? n = t.inherited NodeKind.autoescape? n := by
  rw [inherited, inherited, hs.nearestAncestor fun a => by rw [ha]]
  simp only [ha]

theorem inherited_qualifyNames (t : Tree) (n : NodeRef) :
    t.qualifyNames.inherited NodeKind.autoescape? n = t.inherited NodeKind.autoescape? n :=
  (sameShape_mapKinds t _ _ _).inherited_autoescape? (autoescape?_qualifyNames t) n

/-- The kind of a node of a prepared tree. -/
theorem Loaded.kind_prepare (h : t.Loaded) (hp : t.prepare registry backend = (.ok (), t'))
    (hn : t.Has n) :
    t'.kind n = (NodeKind.insertEscape registry (.ok 0)
      (NodeKind.markSite ((t.inherited NodeKind.autoescape? n).getD false)
        (NodeKind.qualifyName ((t.inherited NodeKind.ns? n).getD "") (t.kind n)).2).2).2 := by
  obtain ⟨hcheck, rfl⟩ := prepare_eq_ok hp
  have hq := h.qualifyNames
  have hknown := hq.known_markEscapingSites hcheck
  have hn₁ : t.qualifyNames.Has n := (sameShape_mapKinds t _ _ _).has.mpr hn
  have hn₂ : t.qualifyNames.markEscapingSites.Has n :=
    (sameShape_mapKinds t.qualifyNames _ _ _).has.mpr hn₁
  rw [hq.markEscapingSites.kind_insertEscapes hknown hn₂, hq.kind_markEscapingSites hn₁,
    inherited_qualifyNames, h.kind_qualifyNames hn]

end Tree

end TemplateLang
