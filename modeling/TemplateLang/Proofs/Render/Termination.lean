import TemplateLang.Proofs.Render.DataFault
import TemplateLang.Proofs.Render.Machine

/-! Rendering ends, whatever calls what. Step by step it comes to the result that the text of the
template is defined to be: below a template by induction on the nodes, for the tree has no
circle, and across calls by induction on how many more templates may be open. So the stack
is empty in the end, and every template that was opened is closed again with the counter as it was
before. -/

namespace TemplateLang

open Rendering

namespace RenderContext

variable {c : RenderContext} {limit : Option ℕ} {depth k : ℕ} {s s' s'' : Rendering} {w : Work}
  {text out : String} {tasks tasks' rest : List Task} {x r r' : Except RenderError String}
  {e : RenderError} {n : NodeRef} {d : Data} {call : View → Data → Except RenderError String}

/-! ### Ways of a rendering -/

/-- One rendering becomes the other, step by step. -/
def Leads (c : RenderContext) (limit : Option ℕ) (s s' : Rendering) : Prop :=
  ∃ k, c.run limit s k = s'

namespace Leads

theorem refl (s : Rendering) : c.Leads limit s s := ⟨0, rfl⟩

theorem trans (h : c.Leads limit s s') (h' : c.Leads limit s' s'') : c.Leads limit s s'' := by
  obtain ⟨j, rfl⟩ := h
  obtain ⟨k, rfl⟩ := h'
  exact ⟨j + k, c.run_add limit s j k⟩

theorem step (h : c.step limit s = s') : c.Leads limit s s' := ⟨1, h⟩

/-- After a failure the tasks are dropped. -/
theorem drop (htasks : tasks.countP Task.isLeave = 0) :
    c.Leads limit ⟨tasks ++ rest, depth, out, some e⟩ ⟨rest, depth, out, some e⟩ := by
  induction tasks with
  | nil => exact refl _
  | cons task tasks ih =>
    obtain ⟨hleave, htasks⟩ : task.isLeave = false ∧ tasks.countP Task.isLeave = 0 := by
      rw [List.countP_eq_zero] at htasks ⊢
      exact ⟨by simpa using htasks task (List.mem_cons_self ..),
        fun task h => htasks task (List.mem_cons_of_mem _ h)⟩
    exact (step (step_drop hleave _ depth out e)).trans (ih htasks)

end Leads

/-! ### What tasks come to -/

/-- One result after another. -/
def joined (x r : Except RenderError String) : Except RenderError String := do
  let text ← x
  return text ++ (← r)

@[simp] theorem joined_ok_empty (r : Except RenderError String) : joined (.ok "") r = r := by
  cases r with
  | error e => rfl
  | ok text => exact congrArg Except.ok (String.empty_append ..)

@[simp] theorem joined_empty (x : Except RenderError String) : joined x (.ok "") = x := by
  cases x with
  | error e => rfl
  | ok text => exact congrArg Except.ok (String.append_empty ..)

/-- The rendering gets to the tasks `rest` with this result: its text is written behind `out`, or
the rendering has failed. -/
def ComesTo (c : RenderContext) (limit : Option ℕ) (s : Rendering) (rest : List Task) (depth : ℕ)
    (out : String) : Except RenderError String → Prop
  | .ok text => c.Leads limit s ⟨rest, depth, out ++ text, none⟩
  | .error e => ∃ out', c.Leads limit s ⟨rest, depth, out', some e⟩

namespace ComesTo

theorem head (h : c.Leads limit s s') (h' : c.ComesTo limit s' rest depth out r) :
    c.ComesTo limit s rest depth out r := by
  cases r with
  | error e =>
    obtain ⟨out', h'⟩ := h'
    exact ⟨out', h.trans h'⟩
  | ok text => exact h.trans h'

theorem joined (h : c.ComesTo limit s rest depth (out ++ text) r) :
    c.ComesTo limit s rest depth out (joined (.ok text) r) := by
  cases r with
  | error e => exact h
  | ok text' =>
    rw [ComesTo, String.append_assoc] at h
    exact h

/-- What comes to a result with the way out of a template on top comes to it outside. -/
theorem leave (h : c.ComesTo limit s (.leave :: rest) (depth + 1) out r) :
    c.ComesTo limit s rest depth out r := by
  cases r with
  | error e =>
    obtain ⟨out', h⟩ := h
    exact ⟨out', h.trans (.step rfl)⟩
  | ok text => exact Leads.trans h (.step rfl)

end ComesTo

/-- With so many templates open, the tasks come to this result, and as many are open then. -/
def Yields (c : RenderContext) (limit : Option ℕ) (depth : ℕ) (tasks : List Task)
    (r : Except RenderError String) : Prop :=
  ∀ rest out, c.ComesTo limit ⟨tasks ++ rest, depth, out, none⟩ rest depth out r

namespace Yields

theorem nil : c.Yields limit depth [] (.ok "") := fun rest out => by
  rw [ComesTo, String.append_empty]
  exact .refl _

theorem append (h : c.Yields limit depth tasks r) (h' : c.Yields limit depth tasks' r')
    (htasks' : tasks'.countP Task.isLeave = 0) :
    c.Yields limit depth (tasks ++ tasks') (joined r r') := by
  intro rest out
  have hfirst := h (tasks' ++ rest) out
  rw [List.append_assoc]
  cases r with
  | error e =>
    obtain ⟨out', hfirst⟩ := hfirst
    exact ⟨out', hfirst.trans (.drop htasks')⟩
  | ok text => exact (ComesTo.head hfirst (h' rest (out ++ text))).joined

/-- A part of a body writes what its expansion writes at once, and then what it leaves to do. -/
theorem work (hw : c.expand w = x.map fun text => (text, tasks))
    (h : c.Yields limit depth tasks r) : c.Yields limit depth [.work w] (joined x r) := by
  intro rest out
  cases x with
  | error e => exact ⟨out, .step (step_fail hw rest depth out)⟩
  | ok text => exact (ComesTo.head (.step (step_write hw rest depth out)) (h rest _)).joined

/-- A part of a body that leaves nothing to do. -/
theorem writes (hw : c.expand w = x.map fun text => (text, [])) :
    c.Yields limit depth [.work w] x := by
  simpa using work hw nil

/-- A part of a body that writes nothing at once. -/
theorem leaves (hw : c.expand w = .ok ("", tasks)) (h : c.Yields limit depth tasks r) :
    c.Yields limit depth [.work w] r := by
  simpa using work (x := .ok "") hw h

/-! ### Bodies -/

theorem nodes {ns : List NodeRef} (h : ∀ n ∈ ns,
    c.Yields limit depth [.work (.node n d)] (c.renderNode call d (c.tree.view n))) :
    c.Yields limit depth [.work (.nodes ns d)]
      (c.renderNodes call d (ns.map c.tree.view)) := by
  induction ns with
  | nil => exact writes (x := .ok "") rfl
  | cons n ns ih =>
    refine leaves rfl ?_
    exact (h n (List.mem_cons_self ..)).append
      (ih fun m hm => h m (List.mem_cons_of_mem _ hm)) rfl

theorem branches (hc : c.tree.Consistent) {ns : List NodeRef} (h : ∀ n ∈ ns,
    c.Yields limit depth [.work (.nodes (c.tree.children n) d)]
      (c.renderNodes call d ((c.tree.children n).map c.tree.view))) (first : Bool) :
    c.Yields limit depth [.work (.branches first ns d)]
      (c.renderBranches call d first (ns.map c.tree.view)) := by
  induction ns generalizing first with
  | nil => exact writes (x := .ok "") rfl
  | cons n ns ih =>
    have hbody := h n (List.mem_cons_self ..)
    have hrest := ih (fun m hm => h m (List.mem_cons_of_mem _ hm)) false
    rw [List.map_cons, hc.view_eq]
    cases hk : c.tree.kind n with
    | branch condition =>
      rw [renderBranches]
      cases hvalue : c.evaluate d condition with
      | error e => exact writes (by rw [expand, hk]; simp only [hvalue]; rfl)
      | ok value =>
        rw [ok_bind]
        cases htruth : value.truth with
        | true => exact leaves (by rw [expand, hk]; simp only [hvalue, ok_bind, htruth]; rfl) hbody
        | false => exact leaves (by rw [expand, hk]; simp only [hvalue, ok_bind, htruth]; rfl) hrest
    | otherwise =>
      rw [renderBranches]
      cases first with
      | true => exact writes (by rw [expand, hk]; rfl)
      | false => exact leaves (by rw [expand, hk]; rfl) hbody
    | _ => exact writes (by rw [expand, hk]; rfl)

theorem parts (msg : NodeRef) (key : String) (parts : List MessagePart) :
    c.Yields limit depth [.work (.parts msg key parts d)]
      (c.renderParts d (c.tree.view msg) key parts) := by
  induction parts with
  | nil => exact writes (x := .ok "") rfl
  | cons part parts ih =>
    cases part with
    | text content => exact work (x := .ok content) rfl ih
    | placeholder name =>
      rw [renderParts]
      cases hprint : (c.tree.view msg).placeholder? name with
      | none =>
        refine writes ?_
        rw [expand, hprint, Tree.serial_view]
        rfl
      | some print =>
        refine work ?_ ih
        rw [expand, hprint]

/-- A node comes to its text, and so do the nodes below it, if the templates that are called
come to theirs. -/
theorem node (hc : c.tree.Consistent) (hcall : ∀ m d,
    c.Yields limit depth [.enter m d] (call (c.tree.view m) d)) (n : NodeRef) :
    c.Yields limit depth [.work (.node n d)] (c.renderNode call d (c.tree.view n)) ∧
      c.Yields limit depth [.work (.nodes (c.tree.children n) d)]
        (c.renderNodes call d ((c.tree.children n).map c.tree.view)) := by
  -- a conditional block goes on with the nodes below its branches, two generations down, and so
  -- the induction carries what is below a node along with it
  induction n using hc.children_induction with
  | step n ih =>
    have hbody := nodes fun m hm => (ih m hm).1
    refine ⟨?_, hbody⟩
    rw [hc.view_eq]
    cases hk : c.tree.kind n with
    | text content => exact writes (x := .ok content) (by rw [expand, hk]; rfl)
    | print e directives escape =>
      rw [renderNode]
      exact writes (by rw [expand, hk])
    | cond =>
      rw [renderNode]
      exact leaves (by rw [expand, hk]) (branches hc (fun m hm => (ih m hm).2) true)
    | msg key desc =>
      rw [renderNode]
      cases hbundle : c.scope.msgBundle.mapError RenderError.compile with
      | error e => exact writes (by rw [expand, hk]; simp only [hbundle]; rfl)
      | ok bundle =>
        rw [ok_bind]
        cases htrans : bundle.bind (·.get? key) with
        | none => exact leaves (by rw [expand, hk]; simp only [hbundle, ok_bind, htrans]) hbody
        | some translation =>
          have hparts : c.Yields limit depth [.work (.parts n key translation d)]
              (c.renderParts d (c.tree.view n) key translation) := parts n key translation
          rw [hc.view_eq, hk] at hparts
          exact leaves (by rw [expand, hk]; simp only [hbundle, ok_bind, htrans]) hparts
    | call callee passesData =>
      rw [renderNode, renderCall]
      cases htemplate : c.templates.get? callee with
      | none => exact writes (by rw [expand, hk]; simp only [htemplate]; rfl)
      | some m => exact leaves (by rw [expand, hk]; simp only [htemplate]) (hcall m _)
    | _ => exact writes (by rw [expand, hk]; rfl)

/-- A template comes to its text, however many of the templates that may be open are left. -/
theorem template (hc : c.tree.Consistent) {budget : ℕ} (hbudget : depth + budget = callDepthLimit)
    (n : NodeRef) (d : Data) :
    c.Yields (some callDepthLimit) depth [.enter n d]
      (c.renderTemplate budget (c.tree.view n) d) := by
  -- the counter and the budget stay the limit together: the budget is used up just where the
  -- counter refuses
  induction budget generalizing depth n d with
  | zero =>
    intro rest out
    rw [renderTemplate, Tree.serial_view]
    exact ⟨out, .step (step_refuse (Nat.le_of_eq hbudget.symm) n d rest out)⟩
  | succ budget ih =>
    intro rest out
    have hdepth : ∀ most, some callDepthLimit = some most → depth < most := by
      intro most h
      obtain rfl := Option.some.inj h
      omega
    have hbody : c.Yields (some callDepthLimit) (depth + 1)
        [.work (.nodes (c.tree.children n) d)]
        (c.renderNodes (c.renderTemplate budget) d ((c.tree.children n).map c.tree.view)) :=
      (node hc (ih (by omega)) n).2
    rw [renderTemplate, hc.children_view]
    exact (ComesTo.head (.step (step_enter hdepth n d rest out)) (hbody (.leave :: rest) out)).leave

/-- Tasks that come to a result end a rendering with it. -/
theorem exists_result (h : c.Yields limit 0 tasks r) :
    ∃ k, (c.run limit ⟨tasks, 0, "", none⟩ k).result? = some r := by
  have hend := h [] ""
  rw [List.append_nil] at hend
  cases r with
  | error e =>
    obtain ⟨out, k, hk⟩ := hend
    exact ⟨k, by rw [hk]; rfl⟩
  | ok text =>
    obtain ⟨k, hk⟩ := hend
    exact ⟨k, by rw [hk, String.empty_append]; rfl⟩

end Yields

/-! ### Ends of renderings -/

/-- A rendering that has ended stays as it is. -/
theorem run_of_result? (h : (c.run limit s k).result? = some r) (j : ℕ) :
    c.run limit s (k + j) = c.run limit s k := by
  rw [run_add, run_of_nil (tasks_of_result? h)]

/-- What fails on the way fails in the end. -/
theorem exists_failed_iff (h : (c.run limit s k).result? = some r) :
    (∃ j, (c.run limit s j).failed = some e) ↔ r = .error e := by
  constructor
  · rintro ⟨j, hj⟩
    have hlater : (c.run limit s (j + k)).failed = some e := by
      rw [run_add]
      exact failed_run hj k
    rw [Nat.add_comm, run_of_result? h] at hlater
    rw [result?_of_failed (tasks_of_result? h) hlater] at h
    exact (Option.some.inj h).symm
  · rintro rfl
    exact ⟨k, failed_of_result? h⟩

/-- A template that is opened, or refused, is left again, with the counter as before. -/
theorem exists_left (hs : s.depth = s.openBodies) (hend : (c.run limit s k).result? = some r)
    {i : ℕ} (hi : (c.run limit s i).tasks = .enter n d :: rest) :
    ∃ j, i < j ∧ (c.run limit s j).tasks = rest ∧
      (c.run limit s j).depth = (c.run limit s i).depth ∧
      ∀ l, i ≤ l → l < j → ∃ above, above ≠ [] ∧ (c.run limit s l).tasks = above ++ rest := by
  have hnil : (c.run limit (c.run limit s i) k).tasks = [] := by
    rw [← run_add, Nat.add_comm, run_of_result? hend]
    exact tasks_of_result? hend
  obtain ⟨j, hj, htasks, hbetween⟩ :=
    exists_return (List.cons_ne_nil (.enter n d) []) hi hnil
  rw [← run_add] at htasks
  refine ⟨i + j, Nat.lt_add_of_pos_right hj, htasks, ?_, fun l hle hlt => ?_⟩
  · rw [c.depth_run limit hs, c.depth_run limit hs, openBodies, openBodies, htasks, hi]
    rfl
  · obtain ⟨l, rfl⟩ := Nat.exists_eq_add_of_le hle
    rw [run_add]
    exact hbetween l (Nat.lt_of_add_lt_add_left hlt)

end RenderContext

namespace Renderer

variable {r : Renderer} {name full : String} {n : NodeRef}

/-- Rendering ends on every tree that loads and is prepared, with every data, bundle and template
to start from, and with the result of the renderer. All the way the counter is the number of
templates that are open, and whenever a template is left, with success or not, it is what it was
before. The depth of calls fails a rendering just where a template is to be opened with as many
open as the limit allows, and it fails the whole when without the limit more would be open;
otherwise the limit changes no step. -/
theorem render_terminates {fresh : ℕ} {text : String} {t : Tree} {registry : Registry}
    {bidiDir : ℤ} {policy : OverridePolicy} {ns : Option String}
    (hload : Tree.load fresh text = .ok t)
    (hr : Renderer.ofTree t registry bidiDir policy = .ok r)
    (hname : (r.forNamespace ns).resolveName name = .ok full)
    (hn : r.templates.get? full = some n) (d : Data) (bundle : Option Bundle) :
    let run := (r.context bundle).run (some callDepthLimit) (.start n d)
    let free := (r.context bundle).run none (.start n d)
    (∃ k, (run k).result? = some ((r.forNamespace ns).render name d bundle)) ∧
    (∀ k, (run k).depth = (run k).openBodies ∧ (run k).openBodies ≤ callDepthLimit) ∧
    (∀ i m data rest, (run i).tasks = .enter m data :: rest →
      ∃ j, i < j ∧ (run j).tasks = rest ∧ (run j).depth = (run i).depth ∧
        ∀ l, i ≤ l → l < j → ∃ above, above ≠ [] ∧ (run l).tasks = above ++ rest) ∧
    (∀ k serial most, (run k).failed = none →
      ((run (k + 1)).failed = some (.runtime serial (.callDepth most)) ↔
        most = callDepthLimit ∧ (run k).openBodies = callDepthLimit ∧
          ∃ m data rest, (run k).tasks = .enter m data :: rest ∧ r.tree.serial m = serial)) ∧
    ((∃ serial, (r.forNamespace ns).render name d bundle =
        .error (.runtime serial (.callDepth callDepthLimit))) ↔
      ∃ k, callDepthLimit < (free k).openBodies) ∧
    ((∀ k, (free k).openBodies ≤ callDepthLimit) → ∀ k, run k = free k) := by
  intro run free
  have h := Tree.loaded_of_load hload
  have hc := (h.prepare (of_ofTree h hr).1).toFormed.consistent
  have hstart : (start n d).depth = (start n d).openBodies := rfl
  have hle : (start n d).openBodies ≤ callDepthLimit := Nat.zero_le _
  obtain ⟨k, hend⟩ : ∃ k, (run k).result? = some ((r.forNamespace ns).render name d bundle) := by
    rw [render_eq hname hn]
    exact (RenderContext.Yields.template hc (Nat.zero_add _) n d).exists_result
  refine ⟨⟨k, hend⟩, fun k => ⟨?_, ?_⟩, fun i m data rest hi => ?_, fun k serial most hk => ?_, ?_,
    fun hfree k => ?_⟩
  · exact (r.context bundle).depth_run _ hstart k
  · exact (r.context bundle).openBodies_run_le hstart hle k
  · exact RenderContext.exists_left hstart hend hi
  · exact RenderContext.callDepth_step_iff hstart hle hk
  · rw [← RenderContext.callDepth_run_iff hstart hle rfl, exists_comm]
    exact exists_congr fun serial => (RenderContext.exists_failed_iff hend).symm
  · exact RenderContext.run_eq hstart fun j _ => hfree j

/-! ### Two templates that call each other -/

def circleText : String :=
  "[[[\"a.tmpl\",\"app\",[[\".ping\",false,true,[[\"text\",\"i\"]," ++
    "[\"if\",[[\x7b\"data\":[\"more\"]\x7d,[[\"call\",\".pong\",true]]]]]]]," ++
    "[\".pong\",false,true,[[\"text\",\"o\"],[\"call\",\".ping\",true]]]]]]]"

def circle : Tree :=
  ⟨#[⟨0, .fileSet, none, [⟨1⟩]⟩, ⟨1, .file "a.tmpl" "app", some Tree.root, [⟨2⟩, ⟨7⟩]⟩,
    ⟨2, .template ".ping" false true, some ⟨1⟩, [⟨3⟩, ⟨4⟩]⟩, ⟨3, .text "i", some ⟨2⟩, []⟩,
    ⟨4, .cond, some ⟨2⟩, [⟨5⟩]⟩, ⟨5, .branch (.data ["more"]), some ⟨4⟩, [⟨6⟩]⟩,
    ⟨6, .call ".pong" true, some ⟨5⟩, []⟩, ⟨7, .template ".pong" false true, some ⟨1⟩, [⟨8⟩, ⟨9⟩]⟩,
    ⟨8, .text "o", some ⟨7⟩, []⟩, ⟨9, .call ".ping" true, some ⟨7⟩, []⟩], 10⟩

theorem load_circleText : Tree.load 0 circleText = .ok circle := by decide +kernel

def ofCircle : Renderer :=
  ⟨(circle.prepare .full (some .interpreter)).2, ⟨[("app.ping", ⟨2⟩), ("app.pong", ⟨7⟩)]⟩, .full, 0,
    none⟩

theorem ofTree_circle : Renderer.ofTree circle .full 0 .keepLast = .ok ofCircle := by
  have hprepare : circle.prepare .full (some .interpreter) = (.ok (), ofCircle.tree) :=
    Prod.ext (by decide +kernel) rfl
  have hresolve : TemplateSet.resolve ofCircle.tree .keepLast = .ok ofCircle.templates := by
    decide +kernel
  exact ofTree_eq hprepare hresolve 0

/-- As long as there is more, the templates of the circle call each other up to the limit, and
would pass it; with no more the first one ends after its text. -/
theorem render_terminates_circle :
    (∃ k, ((ofCircle.context none).run (some callDepthLimit)
        (.start ⟨2⟩ ⟨[("more", .boolean true)]⟩) k).result? =
      some (.error (.runtime 2 (.callDepth callDepthLimit)))) ∧
    (∃ k, callDepthLimit < ((ofCircle.context none).run none
      (.start ⟨2⟩ ⟨[("more", .boolean true)]⟩) k).openBodies) ∧
    ∃ k, ((ofCircle.context none).run (some callDepthLimit) (.start ⟨2⟩ .empty) k).result? =
      some (.ok "i") := by
  have hname : (ofCircle.forNamespace (some "app")).resolveName ".ping" = .ok "app.ping" := by
    decide +kernel
  have hmore : (ofCircle.forNamespace (some "app")).render ".ping" ⟨[("more", .boolean true)]⟩
      none = .error (.runtime 2 (.callDepth callDepthLimit)) := by decide +kernel
  have hdone : (ofCircle.forNamespace (some "app")).render ".ping" .empty none = .ok "i" := by
    decide +kernel
  obtain ⟨hresult, -, -, -, hpast, -⟩ := render_terminates load_circleText ofTree_circle hname rfl
    ⟨[("more", .boolean true)]⟩ none
  obtain ⟨hdoneResult, -⟩ := render_terminates load_circleText ofTree_circle hname rfl .empty none
  rw [hmore] at hresult hpast
  rw [hdone] at hdoneResult
  exact ⟨hresult, hpast.mp ⟨2, rfl⟩, hdoneResult⟩

end Renderer

end TemplateLang
