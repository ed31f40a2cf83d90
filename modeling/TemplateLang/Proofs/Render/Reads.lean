import Mathlib.Logic.Relation
import TemplateLang.Proofs.Render.Congruence
import TemplateLang.Render.Machine

/-! What of its data a rendering reads. A template reads the paths that stand in its expressions,
and so does every template to which it hands its data on, by a call or by a chain of them; a call
without data hands nothing on. Data that agrees on these paths takes the same branches and makes
the same calls at every depth, so it gives the same result. -/

namespace TemplateLang

/-! ### What is read -/

namespace Expr

/-- The paths of the references in an expression. -/
def paths : Expr → List (List String)
  | .data path => [path]
  | .not e => paths e
  | .eq left right => paths left ++ paths right
  | _ => []

variable {d d' : Data}

theorem eval_of_paths (s : Scope) {e : Expr} (h : ∀ path ∈ e.paths, d'.get? path = d.get? path) :
    e.eval s d' = e.eval s d := by
  induction e with
  | data path => rw [eval, eval, h path (List.mem_singleton_self path)]
  | not e ih => rw [eval, eval, ih h]
  | eq left right ihl ihr =>
    rw [paths, List.forall_mem_append] at h
    rw [eval, eval, ihl h.1, ihr h.2]
  | _ => rfl

end Expr

namespace View

/-- The paths in the expressions of a view: in its prints, the arguments of their directives and
its conditions. -/
def paths (v : View) : List (List String) :=
  v.nodes.flatMap fun w => w.kind.exprs.flatMap Expr.paths

/-- The templates that a view calls with all its data. -/
def heirs (v : View) : List String :=
  v.nodes.filterMap fun w =>
    match w.kind with
    | .call callee true => some callee
    | _ => none

theorem mem_heirs {v w : View} {callee : String} (hw : w ∈ v.nodes)
    (hk : w.kind = .call callee true) : callee ∈ v.heirs :=
  List.mem_filterMap.mpr ⟨w, hw, by rw [hk]⟩

end View

/-- The first template calls the second one with all its data. -/
def HandsOn (t : Tree) (templates : TemplateSet) (n m : NodeRef) : Prop :=
  ∃ callee ∈ (t.view n).heirs, templates.get? callee = some m

/-- The path stands in a template that the data of this one is handed on to. -/
def ReadsPath (t : Tree) (templates : TemplateSet) (n : NodeRef) (path : List String) : Prop :=
  ∃ m, Relation.ReflTransGen (HandsOn t templates) n m ∧ path ∈ (t.view m).paths

namespace RenderContext

variable {c : RenderContext} {call call' : View → Data → Except RenderError String} {d d' : Data}

/-- The expressions of a node of the view have the same values in data that agrees on the paths
in the view. -/
theorem evaluate_of_paths {v w : View} {e : Expr}
    (hpaths : ∀ path ∈ v.paths, d'.get? path = d.get? path) (hw : w ∈ v.nodes)
    (he : e ∈ w.kind.exprs) : c.evaluate d' e = c.evaluate d e := by
  refine congrArg (Except.mapError RenderError.compile) (Expr.eval_of_paths c.scope ?_)
  intro path hpath
  apply hpaths
  exact List.mem_flatMap.mpr ⟨w, hw, List.mem_flatMap.mpr ⟨e, he, hpath⟩⟩

theorem renderPrintNode_of_exprs {w : View}
    (h : ∀ e ∈ w.kind.exprs, c.evaluate d' e = c.evaluate d e) :
    c.renderPrintNode d' w = c.renderPrintNode d w := by
  unfold renderPrintNode
  cases hk : w.kind with
  | print e directives escape =>
    rw [hk] at h
    exact renderPrint_congr rfl h w.serial
  | _ => rfl

/-- A translation reads what the prints of its message read. -/
theorem renderParts_of_exprs {msg : View}
    (h : ∀ w ∈ msg.nodes, ∀ e ∈ w.kind.exprs, c.evaluate d' e = c.evaluate d e) (key : String)
    (parts : List MessagePart) :
    c.renderParts d' msg key parts = c.renderParts d msg key parts := by
  induction parts with
  | nil => rfl
  | cons part parts ih =>
    cases part with
    | text content => rw [renderParts, renderParts, ih]
    | placeholder name =>
      rw [renderParts, renderParts, ih]
      cases hfound : msg.placeholder? name with
      | none => rfl
      | some print =>
        have hmem : print ∈ msg.nodes := List.mem_of_mem_tail (List.mem_of_find?_eq_some hfound)
        simp only [renderPrintNode_of_exprs (h print hmem)]

/-- A node is rendered alike where its expressions have the same values and its calls, with the data
that they pass, are rendered alike. -/
theorem renderNode_of_exprs {v : View}
    (hexprs : ∀ w ∈ v.nodes, ∀ e ∈ w.kind.exprs, c.evaluate d' e = c.evaluate d e)
    (hcalls : ∀ w ∈ v.nodes, ∀ callee passesData, w.kind = .call callee passesData →
      ∀ m, c.templates.get? callee = some m →
        call' (c.tree.view m) (if passesData then d' else .empty) =
          call (c.tree.view m) (if passesData then d else .empty)) :
    c.renderNode call' d' v = c.renderNode call d v ∧
      c.renderNodes call' d' v.children = c.renderNodes call d v.children := by
  induction v using View.induction with
  | node ref serial kind children ih =>
    have hnodes : ∀ w ∈ children, ∀ x ∈ w.nodes,
        x ∈ (View.node ref serial kind children).nodes := fun w hw x hx => by
      rw [View.nodes_node]
      exact List.mem_cons_of_mem _ (List.mem_flatMap.mpr ⟨w, hw, hx⟩)
    have hbelow := fun w hw => ih w hw (fun x hx => hexprs x (hnodes w hw x hx))
      fun x hx => hcalls x (hnodes w hw x hx)
    have hbody : c.renderNodes call' d' children = c.renderNodes call d children :=
      renderNodes_congr fun w hw => (hbelow w hw).1
    have hself := hexprs _ (View.self_mem_nodes _)
    refine ⟨?_, hbody⟩
    cases kind with
    | print e directives escape =>
      rw [renderNode, renderNode]
      exact renderPrint_congr rfl hself serial
    | cond =>
      rw [renderNode, renderNode]
      refine renderBranches_congr (fun w hw => ?_) (fun w hw => (hbelow w hw).2) true
      exact hexprs w (hnodes w hw w w.self_mem_nodes)
    | msg key desc =>
      rw [renderNode, renderNode, hbody]
      simp only [renderParts_of_exprs hexprs]
    | call callee passesData =>
      rw [renderNode, renderNode]
      unfold renderCall
      cases hn : c.templates.get? callee with
      | none => rfl
      | some m => exact hcalls _ (View.self_mem_nodes _) callee passesData rfl m hn
    | _ => rfl

/-- Data that agrees on what a template reads gives the same rendering, however many templates may
be open at once. -/
theorem renderTemplate_of_reads (budget : ℕ) {n : NodeRef}
    (h : ∀ path, ReadsPath c.tree c.templates n path → d'.get? path = d.get? path) :
    c.renderTemplate budget (c.tree.view n) d' = c.renderTemplate budget (c.tree.view n) d := by
  induction budget generalizing n with
  | zero => rfl
  | succ budget ih =>
    have hpaths : ∀ path ∈ (c.tree.view n).paths, d'.get? path = d.get? path := fun path hpath =>
      h path ⟨n, .refl, hpath⟩
    rw [renderTemplate, renderTemplate]
    refine (renderNode_of_exprs (fun w hw e he => evaluate_of_paths hpaths hw he) ?_).2
    intro w hw callee passesData hk m hm
    cases passesData with
    | false => rfl
    | true =>
      apply ih
      rintro path ⟨k, hreach, hpath⟩
      exact h path ⟨k, .head ⟨callee, View.mem_heirs hw hk, hm⟩ hreach, hpath⟩

/-- The text of a template when the template `m` gets no data, whoever calls it. -/
def renderWithheld (c : RenderContext) (m : NodeRef) : ℕ → View → Data → Except RenderError String
  | 0, v, _ => .error (.runtime v.serial (.callDepth callDepthLimit))
  | budget + 1, v, d =>
    c.renderNodes (c.renderWithheld m budget) (if v.ref = m then .empty else d) v.children

/-- A template that the data is not handed on to gets no data: either nobody who calls it has any,
or its callers call it without. -/
theorem renderTemplate_eq_withheld {m : NodeRef} (budget : ℕ) {n : NodeRef} {d : Data}
    (h : d = .empty ∨ ¬ Relation.ReflTransGen (HandsOn c.tree c.templates) n m) :
    c.renderTemplate budget (c.tree.view n) d = c.renderWithheld m budget (c.tree.view n) d := by
  induction budget generalizing n d with
  | zero => rfl
  | succ budget ih =>
    have hdata : (if (c.tree.view n).ref = m then .empty else d) = d := by
      rw [Tree.ref_view]
      split_ifs with hnm
      · rcases h with rfl | h
        · rfl
        · exact absurd (hnm ▸ .refl) h
      · rfl
    rw [renderTemplate, renderWithheld, hdata]
    refine (renderNode_of_exprs (fun _ _ _ _ => rfl) ?_).2
    intro w hw callee passesData hk k hget
    cases passesData with
    | false => exact ih (.inl rfl)
    | true =>
      refine ih (h.imp_right fun hn hm => hn ?_)
      exact .head ⟨callee, View.mem_heirs hw hk, hget⟩ hm

end RenderContext

namespace Renderer

/-- A rendering depends on what its template reads: data in which every such path leads to the same
value, or to none, gives the same text or the same error, in every scope. A template that the data
is not handed on to, by no chain of calls, gets no data all through the rendering, and so it writes
the same whatever data its callers have. -/
theorem render_eq_of_reads (r : Renderer) (name : String) {d d' : Data}
    (hreads : ∀ full n, r.resolveName name = .ok full → r.templates.get? full = some n →
      ∀ path, ReadsPath r.tree r.templates n path → d'.get? path = d.get? path)
    (bundle : Option Bundle) :
    r.render name d' bundle = r.render name d bundle ∧
      (∀ s, r.renderInScope name d' bundle s = r.renderInScope name d bundle s) ∧
      ∀ full n m, r.resolveName name = .ok full → r.templates.get? full = some n →
        ¬ Relation.ReflTransGen (HandsOn r.tree r.templates) n m → ∀ data,
          r.render name data bundle =
            (r.context bundle).renderWithheld m callDepthLimit (r.tree.view n) data := by
  have hscope : ∀ s, r.renderInScope name d' bundle s = r.renderInScope name d bundle s := by
    intro s
    unfold renderInScope
    cases hname : r.resolveName name with
    | error e => rfl
    | ok full =>
      cases hn : r.templates.get? full with
      | none => simp only [hn]
      | some n =>
        have hbody : ∀ s, r.renderInFrame n d' s = r.renderInFrame n d s := fun s =>
          RenderContext.renderTemplate_of_reads callDepthLimit (hreads full n hname hn)
        simp only [hn, renderWithFrame, hbody]
  refine ⟨congrArg Prod.fst (hscope .empty), hscope, fun full n m hname hn hm data => ?_⟩
  rw [render_eq hname hn]
  exact RenderContext.renderTemplate_eq_withheld callDepthLimit (.inr hm)

/-! ### A page that keeps a secret -/

def leafletText : String :=
  "[[[\"a.tmpl\",\"app\",[[\".page\",false,true," ++
    "[[\"print\",\x7b\"data\":[\"user\",\"name\"]\x7d]," ++
    "[\"call\",\".footer\",true],[\"call\",\".advert\"]]]," ++
    "[\".footer\",false,true,[[\"print\",\x7b\"data\":[\"year\"]\x7d]]]," ++
    "[\".advert\",false,true,[[\"if\",[[\x7b\"data\":[\"secret\"]\x7d,[[\"text\",\"!\"]]]]]]]]]]]"

def leaflet : Tree :=
  ⟨#[⟨0, .fileSet, none, [⟨1⟩]⟩, ⟨1, .file "a.tmpl" "app", some Tree.root, [⟨2⟩, ⟨6⟩, ⟨8⟩]⟩,
    ⟨2, .template ".page" false true, some ⟨1⟩, [⟨3⟩, ⟨4⟩, ⟨5⟩]⟩,
    ⟨3, .print (.data ["user", "name"]) [] none, some ⟨2⟩, []⟩,
    ⟨4, .call ".footer" true, some ⟨2⟩, []⟩, ⟨5, .call ".advert" false, some ⟨2⟩, []⟩,
    ⟨6, .template ".footer" false true, some ⟨1⟩, [⟨7⟩]⟩,
    ⟨7, .print (.data ["year"]) [] none, some ⟨6⟩, []⟩,
    ⟨8, .template ".advert" false true, some ⟨1⟩, [⟨9⟩]⟩, ⟨9, .cond, some ⟨8⟩, [⟨10⟩]⟩,
    ⟨10, .branch (.data ["secret"]), some ⟨9⟩, [⟨11⟩]⟩, ⟨11, .text "!", some ⟨10⟩, []⟩], 12⟩

theorem load_leafletText : Tree.load 0 leafletText = .ok leaflet := by decide +kernel

def ofLeaflet : Renderer :=
  ⟨(leaflet.prepare .full (some .interpreter)).2,
    ⟨[("app.page", ⟨2⟩), ("app.footer", ⟨6⟩), ("app.advert", ⟨8⟩)]⟩, .full, 0, none⟩

theorem ofTree_leaflet : Renderer.ofTree leaflet .full 0 .keepLast = .ok ofLeaflet := by
  have hprepare : leaflet.prepare .full (some .interpreter) = (.ok (), ofLeaflet.tree) :=
    Prod.ext (by decide +kernel) rfl
  have hresolve : TemplateSet.resolve ofLeaflet.tree .keepLast = .ok ofLeaflet.templates := by
    decide +kernel
  exact ofTree_eq hprepare hresolve 0

/-- The page hands its data on to the footer only. -/
theorem handsOn_leaflet {m : NodeRef}
    (h : Relation.ReflTransGen (HandsOn ofLeaflet.tree ofLeaflet.templates) ⟨2⟩ m) :
    m = ⟨2⟩ ∨ m = ⟨6⟩ := by
  induction h with
  | refl => exact .inl rfl
  | tail _ hstep ih =>
    obtain ⟨callee, hcallee, hget⟩ := hstep
    rcases ih with rfl | rfl
    · have hheirs : (ofLeaflet.tree.view ⟨2⟩).heirs = ["app.footer"] := by decide +kernel
      rw [hheirs] at hcallee
      obtain rfl := List.mem_singleton.mp hcallee
      exact .inr (Option.some.inj hget).symm
    · have hheirs : (ofLeaflet.tree.view ⟨6⟩).heirs = [] := by decide +kernel
      rw [hheirs] at hcallee
      cases hcallee

/-- The page reads the name of the user and the year. -/
theorem readsPath_leaflet {path : List String}
    (h : ReadsPath ofLeaflet.tree ofLeaflet.templates ⟨2⟩ path) :
    path = ["user", "name"] ∨ path = ["year"] := by
  obtain ⟨m, hreach, hpath⟩ := h
  rcases handsOn_leaflet hreach with rfl | rfl
  · have hpaths : (ofLeaflet.tree.view ⟨2⟩).paths = [["user", "name"]] := by decide +kernel
    exact .inl (List.mem_singleton.mp (hpaths ▸ hpath))
  · have hpaths : (ofLeaflet.tree.view ⟨6⟩).paths = [["year"]] := by decide +kernel
    exact .inr (List.mem_singleton.mp (hpaths ▸ hpath))

def annsData : Data :=
  ⟨[("secret", .string "x"), ("user", .object [("name", .string "Ann")]), ("year", .string "2026")]⟩

/-- The data of somebody of the same name, without the secret. -/
def otherData : Data :=
  ⟨[("user", .object [("age", .string "7"), ("name", .string "Ann")]), ("year", .string "2026")]⟩

/-- Only the advertisement looks for the secret, and it is called without data. -/
theorem render_eq_of_reads_leaflet :
    Tree.load 0 leafletText = .ok leaflet ∧
      Renderer.ofTree leaflet .full 0 .keepLast = .ok ofLeaflet ∧
      ofLeaflet.render "app.page" annsData none = .ok "Ann2026" ∧
      ofLeaflet.render "app.page" otherData none = ofLeaflet.render "app.page" annsData none ∧
      ¬ Relation.ReflTransGen (HandsOn ofLeaflet.tree ofLeaflet.templates) ⟨2⟩ ⟨8⟩ ∧
      ofLeaflet.render "app.page" annsData none =
        (ofLeaflet.context none).renderWithheld ⟨8⟩ callDepthLimit (ofLeaflet.tree.view ⟨2⟩)
          annsData := by
  have hreads : ∀ full n, ofLeaflet.resolveName "app.page" = .ok full →
      ofLeaflet.templates.get? full = some n → ∀ path,
        ReadsPath ofLeaflet.tree ofLeaflet.templates n path →
          otherData.get? path = annsData.get? path := by
    intro full n hname hn path hpath
    obtain rfl := Except.ok.inj hname
    obtain rfl := Option.some.inj hn
    rcases readsPath_leaflet hpath with rfl | rfl
    · rfl
    · rfl
  have hadvert : ¬ Relation.ReflTransGen (HandsOn ofLeaflet.tree ofLeaflet.templates) ⟨2⟩ ⟨8⟩ :=
    fun h => absurd (handsOn_leaflet h) (by decide)
  obtain ⟨hrender, -, hwithheld⟩ := render_eq_of_reads ofLeaflet "app.page" hreads none
  exact ⟨load_leafletText, ofTree_leaflet, by decide +kernel, hrender, hadvert,
    hwithheld "app.page" ⟨2⟩ ⟨8⟩ rfl rfl hadvert annsData⟩

end Renderer

end TemplateLang
