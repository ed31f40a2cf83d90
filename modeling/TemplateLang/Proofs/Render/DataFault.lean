import TemplateLang.Proofs.Escaping.Supported
import TemplateLang.Proofs.Name.Definitions
import TemplateLang.Proofs.Render.Failure
import TemplateLang.Proofs.Render.Localization
import TemplateLang.Render.Renderer

/-! Faults of the data. Every failure of a renderer comes from a node of a template that is open:
a print whose value is null or whose text is to be cut to no length, a translation with an
unknown placeholder, a call of a template that is not there, or calls nested too deep. With
all directives in the registry nothing else can go wrong. -/

namespace TemplateLang

variable {t t' : Tree} {templates : TemplateSet} {start m n x : NodeRef} {d data : Data}
  {bundle : Option Bundle} {dir : Direction} {registry : Registry} {depth : ℕ} {e : Expr}
  {calls : List DirectiveCall} {escape : Option EscapeContext} {call : DirectiveCall}

/-! ### Open templates -/

/-- The template `n` is open when calls nest `depth` deep below the template `start`. -/
inductive CallChain (t : Tree) (templates : TemplateSet) (start : NodeRef) : ℕ → NodeRef → Prop
  | start : CallChain t templates start 0 start
  | call {depth : ℕ} {m x n : NodeRef} {callee : String} {passesData : Bool}
      (hm : CallChain t templates start depth m) (hx : t.Reaches m x)
      (hk : t.kind x = .call callee passesData) (hn : templates.get? callee = some n) :
      CallChain t templates start (depth + 1) n

/-- The node is in a template that can be open when `start` is rendered. -/
def Visited (t : Tree) (templates : TemplateSet) (start x : NodeRef) : Prop :=
  ∃ depth < callDepthLimit, ∃ m, CallChain t templates start depth m ∧ t.Reaches m x

theorem Visited.below (h : Visited t templates start x) (hn : t.Reaches x n) :
    Visited t templates start n := by
  obtain ⟨depth, hlt, m, hm, hx⟩ := h
  exact ⟨depth, hlt, m, hm, hx.trans hn⟩

/-- The data that templates get below one that is given `d`. -/
def PassedOn (d data : Data) : Prop := data = d ∨ data = .empty

/-- The failures that the data, the bundle or the calls of the templates account for. -/
inductive DataFault (t : Tree) (templates : TemplateSet) (bundle : Option Bundle)
    (dir : Direction) (start : NodeRef) (d : Data) : RenderError → Prop
  /-- The value of a print is null. -/
  | nullPrint {x : NodeRef} {e : Expr} {calls : List DirectiveCall}
      {escape : Option EscapeContext} {data : Data} (hx : Visited t templates start x)
      (hk : t.kind x = .print e calls escape) (hd : PassedOn d data)
      (hnull : (e.value dir data).isNull) :
      DataFault t templates bundle dir start d
        (.runtime (t.serial x) (.nullPrint e.source (printSource e calls)))
  /-- The argument that a text is to be cut to is no length. -/
  | truncateLength {x : NodeRef} {e limit : Expr} {calls : List DirectiveCall}
      {escape : Option EscapeContext} {call : DirectiveCall} {rest : List Expr} {data : Data}
      (hx : Visited t templates start x) (hk : t.kind x = .print e calls escape)
      (hc : call ∈ calls) (hname : call.name = Directive.truncate.name)
      (hargs : call.args = limit :: rest) (hd : PassedOn d data)
      (hlimit : Directive.lengthArgument? (limit.value dir data).toJson = none) :
      DataFault t templates bundle dir start d
        (.runtime (t.serial x)
          (.directive (Directive.invalidLength (limit.value dir data).toJson.text)))
  /-- A translation has a placeholder that refers to no print of the message. -/
  | unknownPlaceholder {x : NodeRef} {key name : String} (hx : Visited t templates start x)
      (h : t.UnknownPlaceholder bundle x key name) :
      DataFault t templates bundle dir start d
        (.runtime (t.serial x) (.unknownPlaceholder key name))
  /-- Calls nest deeper than the limit. -/
  | callDepth {n : NodeRef} (h : CallChain t templates start callDepthLimit n) :
      DataFault t templates bundle dir start d
        (.runtime (t.serial n) (.callDepth callDepthLimit))
  /-- A template is called that is not in the set. -/
  | unknownTemplate {x : NodeRef} {callee : String} {passesData : Bool}
      (hx : Visited t templates start x) (hk : t.kind x = .call callee passesData)
      (hnone : templates.get? callee = none) :
      DataFault t templates bundle dir start d (.unknownTemplate callee)

/-- A directive of a print does not resolve. -/
def Unresolved (t : Tree) (templates : TemplateSet) (registry : Registry) (start : NodeRef)
    (error : RenderError) : Prop :=
  ∃ x e calls escape call e', Visited t templates start x ∧ t.kind x = .print e calls escape ∧
    call ∈ calls ∧ registry.resolve call = .error e' ∧
    error = .compile (e'.atSite (printSource e calls))

/-- The data is at fault, or a directive does not resolve. -/
def Fault (t : Tree) (templates : TemplateSet) (registry : Registry) (bundle : Option Bundle)
    (dir : Direction) (start : NodeRef) (d : Data) (error : RenderError) : Prop :=
  DataFault t templates bundle dir start d error ∨ Unresolved t templates registry start error

namespace RenderContext

variable {scope : Scope} {callTemplate : View → Data → Except RenderError String}

/-- What a directive does that resolves fails only if it cuts a text to no length. -/
theorem failsOnly_interpreted (dir : Direction) (data : Data) {directive : Directive}
    {apply : String → List Json → Except CompileError String}
    (happly : directive.interpreted? = some apply)
    (hresolve : registry.resolve call = .ok directive) (text : String) :
    FailsOnly (fun error => ∃ limit rest, call.name = Directive.truncate.name ∧
        call.args = limit :: rest ∧ Directive.lengthArgument? (limit.value dir data).toJson = none ∧
        error = Directive.invalidLength (limit.value dir data).toJson.text)
      (apply text (call.args.map fun arg => (arg.value dir data).toJson)) := by
  obtain ⟨hname, harity⟩ := Registry.of_resolve hresolve
  cases directive with
  | truncate =>
    obtain rfl := Option.some.inj happly
    cases hargs : call.args with
    | nil =>
      rw [hargs] at harity
      cases harity
    | cons limit rest =>
      rw [List.map_cons, Directive.applyTruncate]
      cases hlimit : Directive.lengthArgument? (limit.value dir data).toJson with
      | none => exact failsOnly_error ⟨limit, rest, hname.symm, rfl, hlimit, rfl⟩
      | some length => exact failsOnly_ok _
  | _ =>
    obtain rfl := Option.some.inj happly
    exact failsOnly_ok _

section

variable (hb : (⟨t, templates, registry, scope⟩ : RenderContext).Bound bundle dir)
include hb

theorem failsOnly_applyCall (hx : Visited t templates start x)
    (hk : t.kind x = .print e calls escape) (hc : call ∈ calls) (hd : PassedOn d data)
    (text : String) :
    FailsOnly (Fault t templates registry bundle dir start d)
      ((⟨t, templates, registry, scope⟩ : RenderContext).applyCall (t.serial x)
        (printSource e calls) data text call) := by
  unfold applyCall
  cases hresolve : registry.resolve call with
  | error e' =>
    exact failsOnly_error (.inr ⟨x, e, calls, escape, call, e', hx, hk, hc, hresolve, rfl⟩)
  | ok directive =>
    obtain ⟨apply, happly⟩ := Option.isSome_iff_exists.mp directive.supports_interpreter
    have hargs : call.args.mapM (fun arg => do
        return (← (⟨t, templates, registry, scope⟩ : RenderContext).evaluate data arg).toJson) =
        .ok (call.args.map fun arg => (arg.value dir data).toJson) :=
      mapM_eq_ok (fun arg => by rw [hb.evaluate_eq_ok]; rfl) _
    have hcut := failsOnly_interpreted dir data happly hresolve text
    simp only [Except.mapError, ok_bind, happly, hargs]
    cases hresult : apply text (call.args.map fun arg => (arg.value dir data).toJson) with
    | error error =>
      obtain ⟨limit, rest, hname, hargs, hlimit, rfl⟩ := hcut error hresult
      exact failsOnly_error (.inl (.truncateLength hx hk hc hname hargs hd hlimit))
    | ok text => exact failsOnly_ok _

theorem failsOnly_renderPrint (hx : Visited t templates start x)
    (hk : t.kind x = .print e calls escape) (hd : PassedOn d data) :
    FailsOnly (Fault t templates registry bundle dir start d)
      ((⟨t, templates, registry, scope⟩ : RenderContext).renderPrint (t.serial x) data e
        calls) := by
  unfold renderPrint
  rw [hb.evaluate_eq_ok]
  simp only [ok_bind]
  split
  · next hnull => exact failsOnly_error (.inl (.nullPrint hx hk hd hnull))
  · exact failsOnly_foldlM (fun text call hc => failsOnly_applyCall hb hx hk hc hd text) _

theorem failsOnly_renderParts (h : t.Consistent) (hx : Visited t templates start x)
    {key desc : String} (hk : t.kind x = .msg key desc) (hd : PassedOn d data)
    {parts rest : List MessagePart} (htrans : bundle.bind (·.get? key) = some parts)
    (hrest : ∀ part ∈ rest, part ∈ parts) :
    FailsOnly (Fault t templates registry bundle dir start d)
      ((⟨t, templates, registry, scope⟩ : RenderContext).renderParts data (t.view x) key rest) := by
  induction rest with
  | nil => exact failsOnly_ok _
  | cons part rest ih =>
    have hlater := ih fun part hp => hrest part (List.mem_cons_of_mem _ hp)
    cases part with
    | text content =>
      rw [renderParts]
      exact hlater.bind fun _ => failsOnly_ok _
    | placeholder name =>
      rw [renderParts]
      cases hprint : (t.view x).placeholder? name with
      | none =>
        refine failsOnly_error (.inl ?_)
        rw [Tree.serial_view]
        exact .unknownPlaceholder hx
          ⟨desc, parts, hk, htrans, hrest _ (List.mem_cons_self ..), hprint⟩
      | some w =>
        obtain ⟨hmem, hw⟩ := View.isPrint_of_placeholder? hprint
        obtain ⟨y, hy, -, rfl⟩ := h.mem_tail_nodes_view.mp hmem
        have htext : FailsOnly (Fault t templates registry bundle dir start d)
            ((⟨t, templates, registry, scope⟩ : RenderContext).renderPrintNode data
              (t.view y)) := by
          rw [Tree.kind_view] at hw
          rw [renderPrintNode, Tree.kind_view, Tree.serial_view]
          cases hky : t.kind y with
          | print e calls escape => exact failsOnly_renderPrint hb (hx.below hy) hky hd
          | _ =>
            rw [hky] at hw
            cases hw
        exact htext.bind fun _ => hlater.bind fun _ => failsOnly_ok _

/-! ### Templates -/

/-- A template that is open fails for one of the reasons. -/
theorem failsOnly_renderTemplate (h : t.Formed) (ho : t.Opened)
    (hset : ∀ name n, templates.get? name = some n → n ∈ t.files.flatMap t.children)
    {budget : ℕ} (hm : CallChain t templates start depth m)
    (htemplate : m ∈ t.files.flatMap t.children) (hbudget : depth + budget = callDepthLimit)
    (hd : PassedOn d data) :
    FailsOnly (Fault t templates registry bundle dir start d)
      ((⟨t, templates, registry, scope⟩ : RenderContext).renderTemplate budget (t.view m)
        data) := by
  -- The depth of the chain and the budget stay the limit together, so that a budget of zero is
  -- the fault itself and every template above it is visited.
  induction budget generalizing depth m data with
  | zero =>
    obtain rfl : depth = callDepthLimit := hbudget
    refine failsOnly_error (.inl ?_)
    rw [Tree.serial_view]
    exact .callDepth hm
  | succ budget ih =>
    have hc := h.consistent
    have hvisited : ∀ {x}, t.Reaches m x → Visited t templates start x := fun hx =>
      ⟨depth, by omega, m, hm, hx⟩
    have hat : ∀ w ∈ (t.view m).nodes, FailsAt ⟨t, templates, registry, scope⟩
        (renderTemplate ⟨t, templates, registry, scope⟩ budget) data bundle
        (Fault t templates registry bundle dir start d) w := by
      intro w hw
      obtain ⟨x, hx, rfl⟩ := hc.mem_nodes_view.mp hw
      rw [FailsAt, Tree.kind_view, Tree.serial_view]
      cases hk : t.kind x with
      | print e calls escape => exact failsOnly_renderPrint hb (hvisited hx) hk hd
      | msg key desc =>
        exact fun parts htrans =>
          failsOnly_renderParts hb hc (hvisited hx) hk hd htrans fun _ => id
      | call callee passesData =>
        simp only [renderCall]
        cases hn : templates.get? callee with
        | none => exact failsOnly_error (.inl (.unknownTemplate (hvisited hx) hk hn))
        | some n =>
          refine ih (hm.call hx hk hn) (hset callee n hn) (by omega) ?_
          cases passesData with
          | true => exact hd
          | false => exact .inr rfl
      | _ => trivial
    obtain ⟨f, hf, hmf⟩ := List.mem_flatMap.mp htemplate
    have hlevel := h.level_of_mem_file hf hmf
    exact (failsOnly_renderNode hb (h.shaped_view ho m) hat).2 (by
      rw [Tree.kind_view, ← Tree.level, hlevel]
      rfl)

end

end RenderContext

/-! ### Renderers -/

namespace Renderer

variable {r : Renderer} {bidiDir : Int} {policy : OverridePolicy}

/-- A renderer holds a prepared tree and its definitions that count. -/
theorem of_ofTree (h : t.Loaded) (hr : Renderer.ofTree t registry bidiDir policy = .ok r) :
    t.prepare registry (some .interpreter) = (.ok (), r.tree) ∧
      r = ⟨r.tree, .ofDefinitions policy r.tree.definitions, registry, bidiDir, none⟩ := by
  unfold ofTree at hr
  rcases hp : t.prepare registry (some .interpreter) with ⟨e | u, t'⟩
  · rw [hp] at hr
    cases hr
  · rw [hp] at hr
    obtain ⟨templates, hresolve, hr⟩ := bind_eq_ok.mp hr
    rw [(h.named_prepare hp).resolve_eq policy] at hresolve
    obtain rfl := Except.ok.inj hresolve
    obtain rfl := Except.ok.inj hr
    exact ⟨rfl, rfl⟩

theorem ns_of_ofTree (h : t.Loaded) (hr : Renderer.ofTree t registry bidiDir policy = .ok r) :
    r.ns = none := by rw [(of_ofTree h hr).2]

/-- Only a template of the set fails with an error of its compilation. -/
theorem exists_of_render_compile (h : t.Loaded)
    (hr : Renderer.ofTree t registry bidiDir policy = .ok r) {name : String} {error : CompileError}
    (he : r.render name d bundle = .error (.compile error)) :
    ∃ n, r.templates.get? name = some n := by
  have hns := ns_of_ofTree h hr
  by_cases hpartial : isPartialName name
  · simp [render, renderInScope, resolveName, hns, hpartial] at he
  · cases hn : r.templates.get? name with
    | none => simp [render, renderInScope, resolveName, hns, hpartial, hn] at he
    | some n => exact ⟨n, rfl⟩

/-- A name of the set is rendered from its definition in effect. -/
theorem renderInScope_eq (h : t.Loaded) (hr : Renderer.ofTree t registry bidiDir policy = .ok r)
    {name : String} (hn : r.templates.get? name = some n) (d : Data) (bundle : Option Bundle)
    (s : Scope) : r.renderInScope name d bundle s = r.renderWithFrame n d bundle s := by
  obtain ⟨hp, heq⟩ := of_ofTree h hr
  have htemplates : r.templates = .ofDefinitions policy r.tree.definitions := by rw [heq]
  have hns := ns_of_ofTree h hr
  obtain ⟨hfull, -⟩ := (h.named_prepare hp).of_get? (htemplates ▸ hn)
  have hname : r.resolveName name = .ok name := by
    unfold resolveName
    rw [hns]
    simp only [hfull]
    rfl
  rw [renderInScope, hname]
  simp only [hn]

/-- Rendering a template of the set fails because the data is at fault or because a directive
does not resolve. -/
theorem fault_of_render (h : t.Loaded) (ho : t.Opened)
    (hr : Renderer.ofTree t registry bidiDir policy = .ok r) {name : String}
    (hn : r.templates.get? name = some n) {error : RenderError}
    (he : r.render name d bundle = .error error) :
    Fault r.tree r.templates registry bundle (.resolve bidiDir (bundle.map Bundle.locale)) n d
      error := by
  rw [render, renderInScope_eq h hr hn] at he
  obtain ⟨hp, heq⟩ := of_ofTree h hr
  have h' := h.prepare hp
  have hset : ∀ name n, (TemplateSet.ofDefinitions policy r.tree.definitions).get? name = some n →
      n ∈ r.tree.files.flatMap r.tree.children := fun name n hn =>
    ((h.named_prepare hp).of_get? hn).2.1
  generalize r.tree = t' at *
  subst heq
  have hbound : (⟨t', .ofDefinitions policy t'.definitions, registry,
      ⟨some (Scope.sharedBindings bundle bidiDir).reverse, 1⟩⟩ : RenderContext).Bound bundle
      (.resolve bidiDir (bundle.map Bundle.locale)) := ⟨rfl, rfl⟩
  exact RenderContext.failsOnly_renderTemplate hbound h'.toFormed (ho.prepare hp) hset .start
    (hset name n hn) rfl (.inl rfl) error he

/-- With all directives in the registry, rendering a template of the set fails for a reason in the
data, the bundle or the calls of the templates. -/
theorem dataFault_of_render {fresh : ℕ} {text : String} (hload : Tree.load fresh text = .ok t)
    (hr : Renderer.ofTree t .full bidiDir policy = .ok r) {name : String}
    (hname : name ∈ r.templates.names) (d : Data) (bundle : Option Bundle) {error : RenderError}
    (he : r.render name d bundle = .error error) :
    ∃ n, r.templates.get? name = some n ∧
      DataFault r.tree r.templates bundle (.resolve bidiDir (bundle.map Bundle.locale)) n d
        error := by
  have h := Tree.loaded_of_load hload
  obtain ⟨n, hn⟩ : ∃ n, r.templates.get? name = some n := by
    refine Option.ne_none_iff_exists'.mp fun hnone => ?_
    exact TemplateSet.get?_eq_none.mp hnone hname
  refine ⟨n, hn, (fault_of_render h (Tree.opened_of_load hload) hr hn he).resolve_right ?_⟩
  rintro ⟨x, e, calls, escape, call, e', hx, hk, hc, hresolve, rfl⟩
  obtain ⟨hp, -⟩ := of_ofTree h hr
  rcases h.supported_or_lacksEscape hp x with hsupported | hlacks
  · obtain ⟨directive, hok, -⟩ := hsupported e calls escape hk call hc
    rw [hresolve] at hok
    cases hok
  · exact NodeKind.not_lacksEscape_full _ hlacks

/-- A renderer of the page. -/
def ofPage : Renderer :=
  ⟨Tree.preparedPage, ⟨[("app.page", ⟨2⟩), ("app.login", ⟨13⟩)]⟩, .full, 0, none⟩

theorem ofTree_page : Renderer.ofTree Tree.page .full 0 .keepLast = .ok ofPage := by
  have hprepare : Tree.page.prepare .full (some .interpreter) = (.ok (), Tree.preparedPage) := by
    decide +kernel
  have hresolve : TemplateSet.resolve Tree.preparedPage .keepLast =
      .ok ⟨[("app.page", ⟨2⟩), ("app.login", ⟨13⟩)]⟩ := by decide +kernel
  exact ofTree_eq hprepare hresolve 0

/-- The page fails for a user whose name is to be cut to no length. -/
theorem dataFault_of_render_page :
    ∃ n, ofPage.templates.get? "app.page" = some n ∧
      DataFault ofPage.tree ofPage.templates none (.resolve 0 none) n ⟨[("user", .string "Ann")]⟩
        (.runtime 7 (.directive (Directive.invalidLength "null"))) :=
  dataFault_of_render Tree.load_pageText ofTree_page (by decide +kernel) _ none (by decide +kernel)

end Renderer

end TemplateLang
