import TemplateLang.Proofs.Escaping.Guarantee
import TemplateLang.Proofs.Message.Prints
import TemplateLang.Proofs.Message.Remaining
import TemplateLang.Proofs.Name.TemplateSet
import TemplateLang.Proofs.Render.Agreement

/-! Messages replaced in a tree, and messages looked up while it is rendered. A tree in which no
message is inside another is rendered with a bundle as the tree with its messages replaced is
rendered without one. By induction on nodes a body agrees with its localized view, and by
induction on the open templates so do all templates. -/

namespace TemplateLang

variable {t t' : Tree} {n x : NodeRef} {bundle : Option Bundle}

namespace View

/-- A view without messages is left as it is. -/
theorem localize_eq_self {v : View} (h : ¬ v.HasMessage) : v.localize bundle = [v] := by
  induction v using View.induction with
  | node ref serial kind children ih =>
    rw [hasMessage_node] at h
    push Not at h
    obtain ⟨hkind, hchildren⟩ := h
    have hsingle : ∀ c ∈ children, c.localize bundle = [c] := fun c hc => ih c hc (hchildren c hc)
    rw [localize_of_not_isMessage (by simpa using hkind), List.flatMap_congr hsingle,
      List.flatMap_singleton']

end View

namespace Tree

theorem Consistent.placeholder?_eq_none_iff (h : t.Consistent) (name : String) :
    (t.view n).placeholder? name = none ↔
      ∀ y ∈ t.descendants n, y ≠ n → (t.kind y).prints name = false := by
  rw [View.placeholder?, List.find?_eq_none]
  constructor
  · intro hw y hy hne
    have hmem := h.mem_tail_nodes_view.mpr ⟨y, h.mem_descendants.mp hy, hne, rfl⟩
    simpa using hw _ hmem
  · intro hy w hw
    obtain ⟨y, hreach, hne, rfl⟩ := h.mem_tail_nodes_view.mp hw
    simp [hy y (h.mem_descendants.mpr hreach) hne]

theorem Consistent.not_resolves_iff (h : t.Consistent) :
    ¬ View.Resolves bundle (t.view n) ↔
      ∃ parts, View.translation bundle (t.kind n) = some parts ∧
        ∃ name, .placeholder name ∈ parts ∧
          ∀ y ∈ t.descendants n, y ≠ n → (t.kind y).prints name = false := by
  unfold View.Resolves
  rw [kind_view]
  push Not
  simp only [Option.not_isSome_iff_eq_none, View.partKinds_eq_none_iff,
    h.placeholder?_eq_none_iff]

/-- No branch of a conditional block is a message. -/
theorem Leveled.not_isMessage_of_cond (h : t.Leveled) (hc : t.Consistent) (hk : t.kind x = .cond)
    (hn : n ∈ t.children x) : (t.kind n).isMessage = false := by
  have hholds := h.holds n x ((hc.mem_children x n).mp hn)
  rw [level, level, hk] at hholds
  cases hkn : t.kind n with
  | msg key desc => simp [hkn, NodeKind.level, Level.holds] at hholds
  | _ => rfl

/-- Trees whose messages are apart and have all the prints that the bundle asks for. -/
structure Localizable (t : Tree) (bundle : Option Bundle) : Prop extends Formed t where
  resolves : ∀ n, t.Reaches root n → (t.kind n).isMessage → View.Resolves bundle (t.view n)
  flat : ∀ n, t.Reaches root n → (t.kind n).isMessage → ¬ HasInner t n

end Tree

namespace RenderContext

open TemplateLang.Tree

variable {c c' : RenderContext} {call call' : View → Data → Except RenderError String} {d : Data}

/-! ### Bodies -/

/-- The parts of a message are rendered as the nodes that they become. -/
theorem Corresponds.renderParts (h : Corresponds c c' call call') (key : String) {msg : View}
    {parts : List MessagePart} {ks : List NodeKind} (hks : msg.partKinds parts = some ks) :
    Agree (c.renderParts d msg key parts) (c'.renderNodes call' d (ks.map View.leaf)) := by
  induction parts generalizing ks with
  | nil =>
    obtain rfl : [] = ks := Option.some.inj hks
    exact .refl _
  | cons part parts ih =>
    rw [View.partKinds] at hks
    obtain ⟨k, hk, hks⟩ := Option.bind_eq_some_iff.mp hks
    obtain ⟨rest, hrest, hks⟩ := Option.bind_eq_some_iff.mp hks
    obtain rfl : k :: rest = ks := Option.some.inj hks
    have hagree := ih hrest
    rw [List.map_cons, renderNodes]
    cases part with
    | text content =>
      obtain rfl : .text content = k := Option.some.inj hk
      rw [RenderContext.renderParts, View.leaf, renderNode, ok_bind]
      exact hagree.bind fun text => .refl _
    | placeholder name =>
      rw [View.partKind, Option.map_eq_some_iff] at hk
      obtain ⟨print, hprint, rfl⟩ := hk
      have hkind := View.isPrint_of_placeholder? hprint
      rw [RenderContext.renderParts, hprint, View.leaf]
      cases hk : print.kind with
      | print e directives escape =>
        simp only [renderPrintNode, hk, renderNode]
        exact (h.renderPrint _ 0 e directives).bind fun text =>
          hagree.bind fun texts => .refl _
      | _ => simp [hk, NodeKind.isPrint] at hkind

/-- A message is rendered as what stands in its place, if its content agrees with itself. -/
theorem Corresponds.agree_replacement (h : Corresponds c c' call call')
    (hb : c.scope.msgBundle = .ok bundle) {ref : NodeRef} {serial : ℕ} {key desc : String}
    {children : List View}
    (hresolves : View.Resolves bundle (.node ref serial (.msg key desc) children))
    (hbody : Agree (c.renderNodes call d children) (c'.renderNodes call' d children)) :
    Agree (c.renderNode call d (.node ref serial (.msg key desc) children))
      (c'.renderNodes call' d
        (View.replacement bundle (.node ref serial (.msg key desc) children))) := by
  have hlookup : View.translation bundle (.msg key desc) = bundle.bind (·.get? key) := rfl
  rw [renderNode, hb, View.replacement, View.kind, hlookup]
  cases htrans : bundle.bind (·.get? key) with
  | some parts =>
    obtain ⟨ks, hks⟩ := Option.isSome_iff_exists.mp (hresolves parts htrans)
    simp only [Except.mapError, ok_bind, htrans, hks, Option.getD_some]
    exact h.renderParts key hks
  | none =>
    simp only [Except.mapError, ok_bind, htrans]
    exact hbody

/-- A node that is no message is rendered as the node with the messages below it replaced. -/
theorem Corresponds.agree_localizeBelow (h : Corresponds c c' call call') {ref : NodeRef}
    {serial : ℕ} {kind : NodeKind} {children : List View} (hkind : kind.isMessage = false)
    (hbranches : kind = .cond → ∀ v ∈ children, v.kind.isMessage = false)
    (hbodies : ∀ v ∈ children, Agree (c.renderNodes call d v.children)
      (c'.renderNodes call' d (v.children.flatMap (View.localize bundle)))) :
    Agree (c.renderNode call d (.node ref serial kind children))
      (c'.renderNode call' d (View.localizeBelow bundle (.node ref serial kind children))) := by
  rw [View.localizeBelow_node]
  cases kind with
  | text content => exact .ok content
  | print e directives escape =>
    rw [renderNode, renderNode]
    exact h.renderPrint serial serial e directives
  | cond =>
    have hsingle : ∀ v ∈ children, v.localize bundle = [v.localizeBelow bundle] := fun v hv =>
      View.localize_eq_singleton (hbranches rfl v hv)
    rw [renderNode, renderNode, List.flatMap_congr hsingle, ← List.map_eq_flatMap]
    exact h.renderBranches (f := View.localizeBelow bundle) (fun _ _ => rfl) hbodies true
  | msg key desc => cases hkind
  | call callee passesData =>
    rw [renderNode, renderNode]
    exact h.renderCall callee passesData
  | _ => exact .error rfl

/-- With the bundle a node is rendered as what replacing messages makes of it, and so is the body
below it. -/
theorem Corresponds.agree_localize (h : Corresponds c c' call call')
    (hl : t.Localizable bundle) (hb : c.scope.msgBundle = .ok bundle) (hx : t.Reaches root x) :
    Agree (c.renderNode call d (t.view x)) (c'.renderNodes call' d ((t.view x).localize bundle)) ∧
      Agree (c.renderNodes call d (t.view x).children)
        (c'.renderNodes call' d ((t.view x).children.flatMap (View.localize bundle))) := by
  have hc := hl.consistent
  induction x using hc.children_induction with
  | step x ih =>
    have hview := hc.view_eq x
    have hchild : ∀ v ∈ (t.view x).children, ∃ y ∈ t.children x, t.Reaches root y ∧
        v = t.view y := by
      intro v hv
      rw [hview] at hv
      obtain ⟨y, hy, rfl⟩ := List.mem_map.mp hv
      exact ⟨y, hy, .child hx ((hc.mem_children x y).mp hy), rfl⟩
    have hbody : Agree (c.renderNodes call d (t.view x).children)
        (c'.renderNodes call' d ((t.view x).children.flatMap (View.localize bundle))) := by
      refine agree_renderNodes_flatMap fun v hv => ?_
      obtain ⟨y, hy, hreach, rfl⟩ := hchild v hv
      exact (ih y hy hreach).1
    refine ⟨?_, hbody⟩
    by_cases hmsg : (t.kind x).isMessage
    · obtain ⟨key, desc, hk⟩ := exists_of_isMessage hmsg
      -- the content has no messages, so that it is its own localized view
      have hself : ∀ v ∈ (t.view x).children, v.localize bundle = [v] := by
        intro v hv
        obtain ⟨y, hy, -, rfl⟩ := hchild v hv
        refine View.localize_eq_self fun hm => hl.flat x hx hmsg ?_
        exact (hc.hasInner_iff x).mpr ⟨y, hy, hm⟩
      have hresolves := hl.resolves x hx hmsg
      rw [List.flatMap_congr hself, List.flatMap_singleton'] at hbody
      rw [View.localize_of_isMessage (by rwa [kind_view])]
      rw [hview, hk] at hbody hresolves ⊢
      exact h.agree_replacement hb hresolves hbody
    · have hmsg' : (t.view x).kind.isMessage = false := by simpa using hmsg
      have hbranches : (t.view x).kind = .cond →
          ∀ v ∈ (t.view x).children, v.kind.isMessage = false := by
        intro hk v hv
        obtain ⟨y, hy, -, rfl⟩ := hchild v hv
        rw [kind_view] at hk ⊢
        exact hl.leveled.not_isMessage_of_cond hc hk hy
      have hbodies : ∀ v ∈ (t.view x).children, Agree (c.renderNodes call d v.children)
          (c'.renderNodes call' d (v.children.flatMap (View.localize bundle))) := by
        intro v hv
        obtain ⟨y, hy, hreach, rfl⟩ := hchild v hv
        exact (ih y hy hreach).2
      rw [View.localize_eq_singleton hmsg', renderNodes_singleton]
      rw [hview] at hmsg' hbranches hbodies ⊢
      exact h.agree_localizeBelow hmsg' hbranches hbodies

/-- The body of a node that is no message agrees with that of every view which shows the same as
its localized view. -/
theorem Corresponds.agree_body (h : Corresponds c c' call call') (hl : t.Localizable bundle)
    (hb : c.scope.msgBundle = .ok bundle) (hnone : c'.scope.msgBundle = .ok none)
    (hx : t.Reaches root x) (hkind : (t.kind x).isMessage = false) {v : View}
    (hv : [v.anonymous] = ((t.view x).localize bundle).map View.anonymous) :
    Agree (c.renderNodes call d (t.view x).children) (c'.renderNodes call' d v.children) := by
  rw [View.localize_eq_singleton (by rwa [kind_view]), List.map_singleton,
    List.singleton_inj] at hv
  have hbody := congrArg View.children hv
  rw [View.children_anonymous, View.children_anonymous] at hbody
  have hanonymous : ∀ vs, Agree (c'.renderNodes call' d vs)
      (c'.renderNodes call' d (vs.map View.anonymous)) := agree_map_anonymous hnone
  have hnew := hanonymous v.children
  rw [hbody] at hnew
  exact (h.agree_localize hl hb hx).2.trans ((hanonymous _).trans hnew.symm)

end RenderContext

namespace Tree

/-! ### Templates -/

theorem Formed.outside_of_depth_lt (h : t.Formed) (hx : t.Reaches root x)
    (hd : (t.level x).depth < 3) : Outside t x := by
  refine ⟨hx, fun a _ hax => ?_⟩
  by_contra hmsg
  obtain ⟨key, desc, hk⟩ := exists_of_isMessage (by simpa using hmsg)
  have ha : t.level a = .message := by rw [level, hk, NodeKind.level]
  rcases h.leveled.depth_le_of_reaches hax with rfl | hle
  · rw [ha] at hd
    exact absurd hd (by decide)
  · rw [ha] at hle
    have hdepth : min (Level.message.depth + 1) 3 = 3 := by decide
    omega

theorem Formed.depth_of_mem_children (h : t.Formed) (hn : n ∈ t.children x) :
    (t.level n).depth = min ((t.level x).depth + 1) 3 :=
  Level.depth_eq_of_holds (h.leveled.holds n x ((h.consistent.mem_children x n).mp hn))

/-- Above bodies the replacement of messages changes no children. -/
theorem Localized.children_eq {new : NodeRef → List NodeRef} (h : t.Formed)
    (hl : Localized t t' bundle (t.view root).outerMessages new) (hx : t.Reaches root x)
    (hd : (t.level x).depth < 2) : t'.children x = t.children x := by
  have hc := h.consistent
  have hout := h.outside_of_depth_lt hx (by omega)
  rw [hl.children x (hx.has hc.has_root), flatMap_exchange_eq_self]
  · intro n hn hm
    have hdepth := h.depth_of_mem_children hn
    have hreach : t.Reaches root n := .child hx ((hc.mem_children x n).mp hn)
    have hno := (h.outside_of_depth_lt hreach (by omega)).2 n hreach .refl
    rw [(hc.mem_outerMessages.mp hm).isMessage] at hno
    cases hno
  · exact hout.not_reaches hc

/-- What stands below files is reached from the root, above bodies. -/
theorem Formed.of_mem_files (h : t.Formed) (hn : n ∈ t.files.flatMap t.children) :
    t.Reaches root n ∧ (t.level n).depth = 2 := by
  obtain ⟨f, hf, hn⟩ := List.mem_flatMap.mp hn
  have hroot := h.leveled.level_root
  have hdf := h.depth_of_mem_children hf
  have hdn := h.depth_of_mem_children hn
  rw [hroot] at hdf
  have hzero : Level.fileSet.depth = 0 := rfl
  refine ⟨.child (.child .refl ((h.consistent.mem_children _ _).mp hf))
    ((h.consistent.mem_children _ _).mp hn), ?_⟩
  omega

/-- Replacing messages leaves the templates. -/
theorem Localized.sameTemplates {new : NodeRef → List NodeRef} (h : t.Formed)
    (hl : Localized t t' bundle (t.view root).outerMessages new) : SameTemplates t t' := by
  have hroot := h.leveled.level_root
  have hzero : Level.fileSet.depth = 0 := rfl
  have hfile : ∀ f ∈ t.files, t.Reaches root f := fun f hf => (h.file_of_mem_files hf).1
  refine ⟨hl.children_eq h .refl (by rw [hroot, hzero]; omega), fun f hf => ?_,
    fun f hf => hl.kind f ((hfile f hf).has h.consistent.has_root),
    fun n hn => hl.kind n ((h.of_mem_files hn).1.has h.consistent.has_root)⟩
  have hdepth := h.depth_of_mem_children hf
  rw [hroot, hzero] at hdepth
  exact hl.children_eq h (hfile f hf) (by omega)

theorem Localized.resolve_eq {new : NodeRef → List NodeRef} (h : t.Formed)
    (hl : Localized t t' bundle (t.view root).outerMessages new) (policy : OverridePolicy) :
    TemplateSet.resolve t' policy = TemplateSet.resolve t policy :=
  (hl.sameTemplates h).resolve_eq policy

/-- The templates in effect agree, however many of them may be open at once. -/
theorem Localized.agree_renderTemplate {new : NodeRef → List NodeRef} (h : t.Localizable bundle)
    (hl : Localized t t' bundle (t.view root).outerMessages new) {policy : OverridePolicy}
    {templates : TemplateSet} (hres : TemplateSet.resolve t policy = .ok templates)
    {s s' : Scope} (hb : s.msgBundle = .ok bundle) (hnone : s'.msgBundle = .ok none)
    (hdir : s'.direction = s.direction) (registry : Registry) (budget : ℕ) {name : String}
    (hn : templates.get? name = some n) (d : Data) :
    Agree
      ((⟨t, templates, registry, s⟩ : RenderContext).renderTemplate budget (t.view n) d)
      ((⟨t', templates, registry, s'⟩ : RenderContext).renderTemplate budget (t'.view n) d) := by
  induction budget generalizing name n d with
  | zero => exact .error rfl
  | succ budget ih =>
    have hcalls : RenderContext.Corresponds ⟨t, templates, registry, s⟩
        ⟨t', templates, registry, s'⟩
        (RenderContext.renderTemplate ⟨t, templates, registry, s⟩ budget)
        (RenderContext.renderTemplate ⟨t', templates, registry, s'⟩ budget) :=
      ⟨rfl, rfl, hdir, fun name n hn d => ih hn d⟩
    obtain ⟨hreach, hdepth⟩ := h.of_mem_files (TemplateSet.mem_of_resolve hres hn)
    have hout := h.outside_of_depth_lt hreach (by omega)
    exact hcalls.agree_body h hb hnone hreach (hout.2 n hreach .refl)
      (hl.localized_view h.toFormed hout)

/-! ### The whole tree -/

theorem Loaded.not_hasInner (h : t.Loaded) (hflat : ∀ n ∈ t.descendants root,
    (t.kind n).isMessage → t.nearestAncestor n NodeKind.isMessage = none)
    (hn : t.Reaches root n) (hmsg : (t.kind n).isMessage) : ¬ HasInner t n := by
  rintro ⟨y, hy, hne, hym⟩
  rcases hy.eq_or_parent with rfl | ⟨p, hp, hnp⟩
  · exact hne rfl
  · obtain ⟨a, ha⟩ := h.consistent.exists_nearestAncestor hp hnp hmsg
    rw [hflat y (h.consistent.mem_descendants.mpr (hn.trans hy)) hym] at ha
    cases ha

/-- Where no message is inside another, all are outer. -/
theorem Loaded.outer_iff_of_flat (h : t.Loaded) (hflat : ∀ n ∈ t.descendants root,
    (t.kind n).isMessage → t.nearestAncestor n NodeKind.isMessage = none) :
    Outer t root n ↔ t.Reaches root n ∧ (t.kind n).isMessage := by
  rw [h.outer_iff]
  constructor
  · rintro ⟨hreach, hmsg, -⟩
    exact ⟨hreach, hmsg⟩
  · rintro ⟨hreach, hmsg⟩
    exact ⟨hreach, hmsg, hflat n (h.consistent.mem_descendants.mpr hreach) hmsg⟩

theorem insertMessages_error_iff (t : Tree) (bundle : Option Bundle) :
    (∃ e, (t.insertMessages bundle).1 = .error e) ↔
      ¬ ∃ t', t.insertMessages bundle = (.ok (), t') := by
  generalize t.insertMessages bundle = result
  obtain ⟨r, t₁⟩ := result
  cases r with
  | error e => simp
  | ok u => simp

theorem Loaded.localizable (h : t.Loaded) (hflat : ∀ n ∈ t.descendants root,
    (t.kind n).isMessage → t.nearestAncestor n NodeKind.isMessage = none)
    (ht : t.insertMessages bundle = (.ok (), t')) : t.Localizable bundle :=
  { h.toFormed with
    resolves := fun _ hn hmsg => h.toFormed.insertMessages_ok_iff.mp ⟨t', ht⟩ _
      ((h.outer_iff_of_flat hflat).mpr ⟨hn, hmsg⟩)
    flat := fun _ hn hmsg => h.not_hasInner hflat hn hmsg }

/-- In a prepared tree with no message inside another, messages are replaced unless a placeholder
has no print, and rendering the new tree without a bundle agrees with rendering the old tree with
it. -/
theorem insertMessages_agrees {fresh : ℕ} {text : String} {t₀ : Tree} {registry : Registry}
    {backend : Option Backend} (hload : Tree.load fresh text = .ok t₀)
    (hprepare : t₀.prepare registry backend = (.ok (), t))
    (hflat : ∀ n ∈ t.descendants root, (t.kind n).isMessage →
      t.nearestAncestor n NodeKind.isMessage = none) (bundle : Option Bundle) :
    ((∃ e, (t.insertMessages bundle).1 = .error e) ↔
      ∃ n ∈ t.descendants root, ∃ key desc parts name, t.kind n = .msg key desc ∧
        bundle.bind (·.get? key) = some parts ∧ .placeholder name ∈ parts ∧
        ∀ y ∈ t.descendants n, y ≠ n → (t.kind y).prints name = false) ∧
    ∀ t', t.insertMessages bundle = (.ok (), t') → ∀ policy templates,
      TemplateSet.resolve t policy = .ok templates →
      TemplateSet.resolve t' policy = .ok templates ∧
      ∀ (registry : Registry) (s s' : Scope) (dir : Direction),
        s.msgBundle = .ok bundle → s.direction = .ok dir →
        s'.msgBundle = .ok none → s'.direction = .ok dir →
        ∀ name n, templates.get? name = some n → ∀ d, Agree
          ((⟨t, templates, registry, s⟩ : RenderContext).renderTemplate callDepthLimit
            (t.view n) d)
          ((⟨t', templates, registry, s'⟩ : RenderContext).renderTemplate callDepthLimit
            (t'.view n) d) := by
  have h := (loaded_of_load hload).prepare hprepare
  have hc := h.consistent
  refine ⟨?_, fun t' ht' policy templates hres => ?_⟩
  · rw [insertMessages_error_iff, h.toFormed.insertMessages_ok_iff]
    push Not
    constructor
    · rintro ⟨n, hn, hr⟩
      obtain ⟨hreach, hmsg⟩ := (h.outer_iff_of_flat hflat).mp hn
      obtain ⟨key, desc, hk⟩ := exists_of_isMessage hmsg
      obtain ⟨parts, htrans, name, hmem, hnone⟩ := hc.not_resolves_iff.mp hr
      rw [hk] at htrans
      exact ⟨n, hc.mem_descendants.mpr hreach, key, desc, parts, name, hk, htrans, hmem, hnone⟩
    · rintro ⟨n, hn, key, desc, parts, name, hk, htrans, hmem, hnone⟩
      have hmsg : (t.kind n).isMessage := by
        rw [hk]
        rfl
      refine ⟨n, (h.outer_iff_of_flat hflat).mpr ⟨hc.mem_descendants.mp hn, hmsg⟩, ?_⟩
      rw [hc.not_resolves_iff, hk]
      exact ⟨parts, htrans, name, hmem, hnone⟩
  · obtain ⟨new, hnew⟩ := h.toFormed.of_insertMessages ht'
    refine ⟨by rw [hnew.resolve_eq h.toFormed, hres], ?_⟩
    intro registry s s' dir hb hd hnone hd' name n hn d
    exact hnew.agree_renderTemplate (h.localizable hflat ht') hres hb hnone (hd'.trans hd.symm)
      registry callDepthLimit hn d

/-! ### A greeting in French -/

def frenchBundle : Bundle :=
  ⟨"fr", [("greeting", [.text "Bonjour ", .placeholder "$name", .text "!"])]⟩

def frenchGreeting : Tree := (preparedGreeting.insertMessages (some frenchBundle)).2

/-- The greeting of somebody, by the first template of a tree and with the messages of a bundle. -/
def greetWith (t : Tree) (bundle : Option Bundle) : Except RenderError String :=
  (⟨t, ⟨[("app.hello", ⟨2⟩)]⟩, .full,
    ⟨some [.msgBundle bundle, .bidiGlobalDir .ltr], 1⟩⟩ : RenderContext).renderTemplate
    callDepthLimit (t.view ⟨2⟩) ⟨[("name", .string "Tom & Ann")]⟩

/-- Both ways to localize the greeting write the same text. -/
theorem insertMessages_agrees_greeting :
    greetWith preparedGreeting (some frenchBundle) = .ok "Bonjour Tom &amp; Ann!" ∧
      Agree (greetWith preparedGreeting (some frenchBundle)) (greetWith frenchGreeting none) := by
  have hflat : ∀ n ∈ preparedGreeting.descendants root, (preparedGreeting.kind n).isMessage →
      preparedGreeting.nearestAncestor n NodeKind.isMessage = none := by decide +kernel
  obtain ⟨-, hagrees⟩ :=
    insertMessages_agrees load_greetingText prepare_greeting hflat (some frenchBundle)
  have hinsert : preparedGreeting.insertMessages (some frenchBundle) = (.ok (), frenchGreeting) :=
    Prod.ext (by decide +kernel) rfl
  have hresolve : TemplateSet.resolve preparedGreeting .keepLast =
      .ok ⟨[("app.hello", ⟨2⟩)]⟩ := by decide +kernel
  obtain ⟨-, hagrees⟩ := hagrees frenchGreeting hinsert .keepLast _ hresolve
  exact ⟨by decide +kernel, hagrees .full _ _ .ltr rfl rfl rfl rfl "app.hello" ⟨2⟩ rfl _⟩

end Tree

end TemplateLang
