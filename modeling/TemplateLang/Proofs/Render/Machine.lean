import Mathlib.Data.Nat.Find
import TemplateLang.Proofs.Result
import TemplateLang.Render.Machine

/-! What the steps of a rendering keep. A step changes only what stands on top of the stack, so
whatever lies below comes up again once the stack is empty in the end. Templates are opened
together with the way out of them, which is what makes the counter the number of templates that are
open; and only a template that is refused fails for the depth of calls. A rendering without a limit
takes the same steps up to the first one that the limit would refuse. -/

namespace TemplateLang

open Rendering

namespace Rendering

variable {s : Rendering} {r : Except RenderError String} {e : RenderError}

theorem tasks_of_result? (h : s.result? = some r) : s.tasks = [] := by
  obtain ⟨tasks, depth, out, failed⟩ := s
  cases tasks with
  | nil => rfl
  | cons task rest => cases h

theorem failed_of_result? (h : s.result? = some (.error e)) : s.failed = some e := by
  obtain ⟨tasks, depth, out, failed⟩ := s
  obtain rfl : tasks = [] := tasks_of_result? h
  cases failed with
  | none => cases Option.some.inj h
  | some e' => exact congrArg some (Except.error.inj (Option.some.inj h))

theorem result?_of_failed (htasks : s.tasks = []) (hs : s.failed = some e) :
    s.result? = some (.error e) := by
  rw [result?, htasks, hs]

end Rendering

namespace RenderContext

variable {c : RenderContext} {limit : Option ℕ} {most i j k : ℕ} {s s' : Rendering} {w : Work}
  {text : String} {tasks rest : List Task} {task : Task} {e : RenderError} {n : NodeRef} {d : Data}

/-! ### Parts of bodies -/

/-- The error is not about the depth of calls. -/
def Shallow (e : RenderError) : Prop := ∀ m most, e ≠ .runtime m (.callDepth most)

theorem shallow_compile (e : CompileError) : Shallow (.compile e) := fun _ _ h => by cases h

theorem shallow_misplaced (serial : ℕ) (kind : NodeKind) : Shallow (misplaced serial kind) :=
  fun _ _ h => by cases h

theorem shallow_evaluate (c : RenderContext) (d : Data) (e : Expr) :
    FailsOnly Shallow (c.evaluate d e) :=
  failsOnly_mapError shallow_compile _

theorem shallow_applyCall (c : RenderContext) (serial : ℕ) (site : String) (d : Data)
    (text : String) (call : DirectiveCall) :
    FailsOnly Shallow (c.applyCall serial site d text call) := by
  unfold applyCall
  refine (failsOnly_mapError shallow_compile _).bind fun directive => ?_
  cases directive.interpreted? with
  | none => exact failsOnly_error (shallow_compile _)
  | some apply =>
    have hargs := failsOnly_mapM fun arg (_ : arg ∈ call.args) =>
      (c.shallow_evaluate d arg).bind fun value => failsOnly_ok value.toJson
    exact hargs.bind fun args => failsOnly_mapError (fun e m most h => by cases h) _

theorem shallow_renderPrint (c : RenderContext) (serial : ℕ) (d : Data) (e : Expr)
    (directives : List DirectiveCall) :
    FailsOnly Shallow (c.renderPrint serial d e directives) := by
  unfold renderPrint
  refine (c.shallow_evaluate d e).bind fun value => ?_
  split
  · exact failsOnly_error fun _ _ h => by cases h
  · exact failsOnly_foldlM (fun text call _ => c.shallow_applyCall serial _ d text call) _

theorem shallow_renderPrintNode (c : RenderContext) (d : Data) (v : View) :
    FailsOnly Shallow (c.renderPrintNode d v) := by
  unfold renderPrintNode
  split
  · exact c.shallow_renderPrint _ d _ _
  · exact failsOnly_error (shallow_misplaced _ _)

/-- What an expansion may be: a failure for something else than the depth of calls, or tasks among
which is no way out of a template. -/
def Harmless : Except RenderError (String × List Task) → Prop
  | .error e => Shallow e
  | .ok (_, tasks) => tasks.countP Task.isLeave = 0

theorem Harmless.bind {α : Type} {x : Except RenderError α}
    {f : α → Except RenderError (String × List Task)} (hx : FailsOnly Shallow x)
    (hf : ∀ a, Harmless (f a)) : Harmless (x >>= f) := by
  cases x with
  | error e => exact hx e rfl
  | ok a => exact hf a

theorem Harmless.map {x : Except RenderError String} (hx : FailsOnly Shallow x)
    (htasks : tasks.countP Task.isLeave = 0) : Harmless (x.map fun text => (text, tasks)) := by
  cases x with
  | error e => exact hx e rfl
  | ok text => exact htasks

theorem harmless_expand (c : RenderContext) (w : Work) : Harmless (c.expand w) := by
  cases w with
  | nodes ns d =>
    cases ns with
    | nil => rfl
    | cons n ns => rfl
  | node n d =>
    rw [expand]
    cases c.tree.kind n with
    | print e directives escape => exact .map (c.shallow_renderPrint _ d e directives) rfl
    | msg key desc =>
      refine .bind (failsOnly_mapError shallow_compile _) fun bundle => ?_
      cases bundle.bind (·.get? key) with
      | none => rfl
      | some parts => rfl
    | call callee passesData =>
      simp only
      cases c.templates.get? callee with
      | none => exact fun _ _ h => by cases h
      | some m => rfl
    | text | cond => rfl
    | _ => exact shallow_misplaced _ _
  | branches first ns d =>
    cases ns with
    | nil => rfl
    | cons n ns =>
      rw [expand]
      cases c.tree.kind n with
      | branch condition =>
        refine .bind (c.shallow_evaluate d condition) fun value => ?_
        cases value.truth with
        | false => rfl
        | true => rfl
      | otherwise =>
        cases first with
        | false => rfl
        | true => exact shallow_misplaced _ _
      | _ => exact shallow_misplaced _ _
  | parts msg key parts d =>
    cases parts with
    | nil => rfl
    | cons part parts =>
      cases part with
      | text content => rfl
      | placeholder name =>
        rw [expand]
        cases (c.tree.view msg).placeholder? name with
        | none => exact fun _ _ h => by cases h
        | some print => exact .map (c.shallow_renderPrintNode d print) rfl

theorem shallow_of_expand (hw : c.expand w = .error e) : Shallow e := by
  have h := c.harmless_expand w
  rwa [hw] at h

theorem countP_of_expand (hw : c.expand w = .ok (text, tasks)) :
    tasks.countP Task.isLeave = 0 := by
  have h := c.harmless_expand w
  rwa [hw] at h

/-! ### Steps -/

/-- What a step can do. -/
inductive Move (c : RenderContext) (limit : Option ℕ) : Rendering → Rendering → Prop
  | done (depth : ℕ) (out : String) (failed : Option RenderError) :
      Move c limit ⟨[], depth, out, failed⟩ ⟨[], depth, out, failed⟩
  | leave (rest : List Task) (depth : ℕ) (out : String) (failed : Option RenderError) :
      Move c limit ⟨.leave :: rest, depth, out, failed⟩ ⟨rest, depth - 1, out, failed⟩
  | drop {task : Task} (hleave : task.isLeave = false) (rest : List Task) (depth : ℕ)
      (out : String) (e : RenderError) :
      Move c limit ⟨task :: rest, depth, out, some e⟩ ⟨rest, depth, out, some e⟩
  | refuse {most depth : ℕ} (hlimit : limit = some most) (hdepth : most ≤ depth) (n : NodeRef)
      (d : Data) (rest : List Task) (out : String) :
      Move c limit ⟨.enter n d :: rest, depth, out, none⟩
        ⟨rest, depth, out, some (.runtime (c.tree.serial n) (.callDepth most))⟩
  | enter {depth : ℕ} (hdepth : ∀ most, limit = some most → depth < most) (n : NodeRef) (d : Data)
      (rest : List Task) (out : String) :
      Move c limit ⟨.enter n d :: rest, depth, out, none⟩
        ⟨.work (.nodes (c.tree.children n) d) :: .leave :: rest, depth + 1, out, none⟩
  | fail {w : Work} {e : RenderError} (hw : c.expand w = .error e) (rest : List Task) (depth : ℕ)
      (out : String) :
      Move c limit ⟨.work w :: rest, depth, out, none⟩ ⟨rest, depth, out, some e⟩
  | write {w : Work} {text : String} {tasks : List Task} (hw : c.expand w = .ok (text, tasks))
      (rest : List Task) (depth : ℕ) (out : String) :
      Move c limit ⟨.work w :: rest, depth, out, none⟩ ⟨tasks ++ rest, depth, out ++ text, none⟩

theorem step_drop (hleave : task.isLeave = false) (rest : List Task) (depth : ℕ) (out : String)
    (e : RenderError) :
    c.step limit ⟨task :: rest, depth, out, some e⟩ = ⟨rest, depth, out, some e⟩ := by
  cases task with
  | leave => cases hleave
  | _ => rfl

theorem step_refuse {depth : ℕ} (hdepth : most ≤ depth) (n : NodeRef) (d : Data)
    (rest : List Task) (out : String) :
    c.step (some most) ⟨.enter n d :: rest, depth, out, none⟩ =
      ⟨rest, depth, out, some (.runtime (c.tree.serial n) (.callDepth most))⟩ := by
  rw [step, Option.filter_some_pos (by simpa using hdepth)]

theorem step_enter {depth : ℕ} (hdepth : ∀ most, limit = some most → depth < most) (n : NodeRef)
    (d : Data) (rest : List Task) (out : String) :
    c.step limit ⟨.enter n d :: rest, depth, out, none⟩ =
      ⟨.work (.nodes (c.tree.children n) d) :: .leave :: rest, depth + 1, out, none⟩ := by
  have hnone : limit.filter (· ≤ depth) = none := by
    simpa [Option.filter_eq_none_iff] using hdepth
  rw [step, hnone]

theorem step_fail (hw : c.expand w = .error e) (rest : List Task) (depth : ℕ) (out : String) :
    c.step limit ⟨.work w :: rest, depth, out, none⟩ = ⟨rest, depth, out, some e⟩ := by
  rw [step, hw]

theorem step_write (hw : c.expand w = .ok (text, tasks)) (rest : List Task) (depth : ℕ)
    (out : String) :
    c.step limit ⟨.work w :: rest, depth, out, none⟩ =
      ⟨tasks ++ rest, depth, out ++ text, none⟩ := by
  rw [step, hw]

theorem move_step (c : RenderContext) (limit : Option ℕ) (s : Rendering) :
    Move c limit s (c.step limit s) := by
  obtain ⟨tasks, depth, out, failed⟩ := s
  rcases tasks with _ | ⟨task, rest⟩
  · exact .done depth out failed
  by_cases hleave : task.isLeave = true
  · cases task with
    | leave => exact .leave rest depth out failed
    | _ => cases hleave
  rw [Bool.not_eq_true] at hleave
  cases failed with
  | some e =>
    rw [step_drop hleave]
    exact .drop hleave rest depth out e
  | none =>
    cases task with
    | leave => cases hleave
    | enter n d =>
      by_cases hdepth : ∀ most, limit = some most → depth < most
      · rw [step_enter hdepth]
        exact .enter hdepth n d rest out
      · push Not at hdepth
        obtain ⟨most, rfl, hle⟩ := hdepth
        rw [step_refuse hle]
        exact .refuse rfl hle n d rest out
    | work w =>
      cases hw : c.expand w with
      | error e =>
        rw [step_fail hw]
        exact .fail hw rest depth out
      | ok p =>
        rw [step_write hw]
        exact .write hw rest depth out

namespace Move

/-- The counter stays the number of templates that are open. -/
theorem depth_eq (h : Move c limit s s') (hs : s.depth = s.openBodies) :
    s'.depth = s'.openBodies := by
  cases h with
  | done | refuse | fail => exact hs
  | leave rest depth out failed =>
    simp only [openBodies, List.countP_cons, Task.isLeave, if_true] at hs ⊢
    omega
  | drop hleave rest depth out e => simpa [openBodies, hleave] using hs
  | enter hdepth n d rest out =>
    simpa [openBodies, Task.isLeave, List.countP_cons] using hs
  | write hw rest depth out =>
    simpa [openBodies, Task.isLeave, countP_of_expand hw] using hs

/-- A limit of the counter is one of the templates that are open. -/
theorem openBodies_le (h : Move c (some most) s s') (hdepth : s.depth = s.openBodies)
    (hs : s.openBodies ≤ most) : s'.openBodies ≤ most := by
  rw [← h.depth_eq hdepth]
  rw [← hdepth] at hs
  cases h with
  | enter hlt n d rest out => exact hlt most rfl
  | leave rest depth out failed => exact Nat.le_trans (Nat.sub_le depth 1) hs
  | _ => exact hs

/-- Only the task on top of the stack is replaced. -/
theorem exists_tasks_eq (h : Move c limit s s') (hs : s.tasks = task :: rest) :
    ∃ above, s'.tasks = above ++ rest := by
  cases h with
  | done => cases hs
  | enter hdepth n d rest out =>
    obtain rfl := (List.cons.inj hs).2
    exact ⟨[_, _], rfl⟩
  | write hw rest depth out =>
    obtain rfl := (List.cons.inj hs).2
    exact ⟨_, rfl⟩
  | _ => exact ⟨[], (List.cons.inj hs).2⟩

theorem failed_eq (h : Move c limit s s') (hs : s.failed = some e) : s'.failed = some e := by
  cases h with
  | done | leave | drop => exact hs
  | _ => cases hs

/-- A rendering fails for the depth of calls where a template is refused. -/
theorem callDepth_iff (h : Move c limit s s') (hs : s.failed = none) {serial : ℕ} :
    s'.failed = some (.runtime serial (.callDepth most)) ↔
      limit = some most ∧ most ≤ s.depth ∧
        ∃ n d rest, s.tasks = .enter n d :: rest ∧ c.tree.serial n = serial := by
  constructor
  · intro hf
    cases h with
    | done | leave =>
      obtain rfl : _ = none := hs
      cases hf
    | drop => cases hs
    | refuse hlimit hdepth n d rest out =>
      obtain ⟨rfl, hmost⟩ := RenderError.runtime.inj (Option.some.inj hf)
      obtain rfl := RenderFault.callDepth.inj hmost
      exact ⟨hlimit, hdepth, n, d, rest, rfl, rfl⟩
    | fail hw rest depth out =>
      exact absurd (Option.some.inj hf) (shallow_of_expand hw _ _)
    | _ => cases hf
  · rintro ⟨rfl, hle, n, d, rest, htasks, rfl⟩
    obtain ⟨tasks, depth, out, failed⟩ := s
    obtain rfl : tasks = _ := htasks
    obtain rfl : failed = none := hs
    cases h with
    | refuse hlimit hdepth =>
      obtain rfl := Option.some.inj hlimit
      rfl
    | enter hdepth => exact absurd (hdepth most rfl) (Nat.not_lt.mpr hle)

/-- A limit that is not passed changes nothing. -/
theorem step_eq (h : Move c none s s') (hdepth : s.depth = s.openBodies)
    (hle : s'.openBodies ≤ most) : c.step (some most) s = s' := by
  rw [← h.depth_eq hdepth] at hle
  cases h with
  | done | leave => rfl
  | drop hleave rest depth out e => exact step_drop hleave rest depth out e
  | refuse hlimit => cases hlimit
  | enter _ n d rest out =>
    refine step_enter (fun most' h => ?_) n d rest out
    obtain rfl := Option.some.inj h
    exact hle
  | fail hw rest depth out => exact step_fail hw rest depth out
  | write hw rest depth out => exact step_write hw rest depth out

/-- Where a limit is passed a template is opened. -/
theorem exists_enter (h : Move c none s s') (hdepth : s.depth = s.openBodies)
    (hle : s.openBodies ≤ most) (hlt : most < s'.openBodies) :
    s.failed = none ∧ most = s.depth ∧ ∃ n d rest, s.tasks = .enter n d :: rest := by
  rw [← h.depth_eq hdepth] at hlt
  rw [← hdepth] at hle
  cases h with
  | enter _ n d rest out =>
    exact ⟨rfl, Nat.le_antisymm (Nat.lt_succ_iff.mp hlt) hle, n, d, rest, rfl⟩
  | leave rest depth out failed =>
    exact absurd (Nat.lt_of_lt_of_le hlt (Nat.sub_le depth 1)) (Nat.not_lt.mpr hle)
  | _ => exact absurd hlt (Nat.not_lt.mpr hle)

end Move

/-! ### Runs -/

theorem run_add (c : RenderContext) (limit : Option ℕ) (s : Rendering) (j k : ℕ) :
    c.run limit s (j + k) = c.run limit (c.run limit s j) k := by
  induction k with
  | zero => rfl
  | succ k ih => rw [← Nat.add_assoc, run, run, ih]

theorem run_succ (c : RenderContext) (limit : Option ℕ) (s : Rendering) (k : ℕ) :
    c.run limit s (k + 1) = c.run limit (c.step limit s) k := by
  rw [Nat.add_comm, run_add]
  rfl

/-- The counter is the number of templates that are open. -/
theorem depth_run (c : RenderContext) (limit : Option ℕ) (hs : s.depth = s.openBodies) (k : ℕ) :
    (c.run limit s k).depth = (c.run limit s k).openBodies := by
  induction k with
  | zero => exact hs
  | succ k ih => exact (c.move_step limit _).depth_eq ih

/-- With a limit no more templates are open. -/
theorem openBodies_run_le (c : RenderContext) (hs : s.depth = s.openBodies)
    (hle : s.openBodies ≤ most) (k : ℕ) : (c.run (some most) s k).openBodies ≤ most := by
  induction k with
  | zero => exact hle
  | succ k ih => exact (c.move_step _ _).openBodies_le (c.depth_run _ hs k) ih

theorem failed_run (hs : s.failed = some e) (k : ℕ) : (c.run limit s k).failed = some e := by
  induction k with
  | zero => exact hs
  | succ k ih => exact (c.move_step limit _).failed_eq ih

/-- With a limit a rendering fails for the depth of calls just where one more template would be
opened than the limit allows. -/
theorem callDepth_step_iff (hs : s.depth = s.openBodies) (hle : s.openBodies ≤ most)
    (hk : (c.run (some most) s k).failed = none) {serial most' : ℕ} :
    (c.run (some most) s (k + 1)).failed = some (.runtime serial (.callDepth most')) ↔
      most' = most ∧ (c.run (some most) s k).openBodies = most ∧
        ∃ n d rest, (c.run (some most) s k).tasks = .enter n d :: rest ∧
          c.tree.serial n = serial := by
  have hdepth := c.depth_run (some most) hs k
  have hopen := c.openBodies_run_le hs hle k
  rw [run, (c.move_step _ _).callDepth_iff hk]
  constructor
  · rintro ⟨hmost, hle, henter⟩
    obtain rfl := Option.some.inj hmost
    exact ⟨rfl, Nat.le_antisymm hopen (hdepth ▸ hle), henter⟩
  · rintro ⟨rfl, heq, henter⟩
    exact ⟨rfl, by rw [hdepth, heq], henter⟩

/-- Nothing happens where nothing is left to do. -/
theorem run_of_nil (hs : s.tasks = []) (k : ℕ) : c.run limit s k = s := by
  obtain ⟨tasks, depth, out, failed⟩ := s
  obtain rfl : tasks = [] := hs
  induction k with
  | zero => rfl
  | succ k ih => rw [run, ih, step]

/-- What lies below a task comes up again if the stack is empty in the end, and everything in
between lies above it. -/
theorem exists_return {above : List Task} (habove : above ≠ []) (hs : s.tasks = above ++ rest)
    (hend : (c.run limit s k).tasks = []) :
    ∃ j, 0 < j ∧ (c.run limit s j).tasks = rest ∧
      ∀ i < j, ∃ above, above ≠ [] ∧ (c.run limit s i).tasks = above ++ rest := by
  induction k generalizing s above with
  | zero =>
    rw [run, hs] at hend
    exact absurd (List.append_eq_nil_iff.mp hend).1 habove
  | succ k ih =>
    rw [run_succ] at hend
    obtain ⟨task, above, rfl⟩ := List.exists_cons_of_ne_nil habove
    obtain ⟨new, hnew⟩ := (c.move_step limit s).exists_tasks_eq
      (show s.tasks = task :: (above ++ rest) from hs)
    rw [← List.append_assoc] at hnew
    by_cases hempty : new ++ above = []
    · rw [hempty, List.nil_append] at hnew
      refine ⟨1, Nat.zero_lt_one, hnew, fun i hi => ?_⟩
      obtain rfl := Nat.lt_one_iff.mp hi
      exact ⟨task :: above, habove, hs⟩
    · obtain ⟨j, -, hj, hbetween⟩ := ih hempty hnew hend
      refine ⟨j + 1, Nat.succ_pos j, by rwa [run_succ], fun i hi => ?_⟩
      cases i with
      | zero => exact ⟨task :: above, habove, hs⟩
      | succ i =>
        rw [run_succ]
        exact hbetween i (Nat.lt_of_succ_lt_succ hi)

/-- As long as the rendering without a limit stays within it, the limit changes nothing. -/
theorem run_eq (hs : s.depth = s.openBodies) (hle : ∀ j ≤ k, (c.run none s j).openBodies ≤ most) :
    c.run (some most) s k = c.run none s k := by
  induction k with
  | zero => rfl
  | succ k ih =>
    rw [run, ih fun j hj => hle j (Nat.le_succ_of_le hj)]
    exact (c.move_step none _).step_eq (c.depth_run none hs k) (hle (k + 1) le_rfl)

/-- Without a limit no rendering fails for the depth of calls. -/
theorem run_none_ne_callDepth (hs : s.failed = none) (k serial : ℕ) :
    (c.run none s k).failed ≠ some (.runtime serial (.callDepth most)) := by
  induction k with
  | zero =>
    rw [run, hs]
    exact Option.some_ne_none _ ∘ Eq.symm
  | succ k ih =>
    cases hf : (c.run none s k).failed with
    | none =>
      intro h
      cases (((c.move_step none _).callDepth_iff hf).mp h).1
    | some e =>
      rw [run, (c.move_step none _).failed_eq hf, ← hf]
      exact ih

/-- A rendering fails for the depth of calls when without a limit it would pass the limit. -/
theorem callDepth_run_iff (hs : s.depth = s.openBodies) (hle : s.openBodies ≤ most)
    (hfailed : s.failed = none) :
    (∃ k serial, (c.run (some most) s k).failed = some (.runtime serial (.callDepth most))) ↔
      ∃ k, most < (c.run none s k).openBodies := by
  constructor
  · rintro ⟨k, serial, hk⟩
    by_contra hno
    push Not at hno
    rw [run_eq hs fun j _ => hno j] at hk
    exact run_none_ne_callDepth hfailed k serial hk
  · intro hex
    -- up to the first step that passes the limit both take the same steps
    obtain ⟨k, hk, hbefore⟩ : ∃ k, most < (c.run none s (k + 1)).openBodies ∧
        ∀ j ≤ k, (c.run none s j).openBodies ≤ most := by
      have hspec := Nat.find_spec hex
      have hmin := fun j => Nat.find_min (m := j) hex
      cases hfirst : Nat.find hex with
      | zero =>
        rw [hfirst] at hspec
        exact absurd hspec (Nat.not_lt.mpr hle)
      | succ k =>
        rw [hfirst] at hspec hmin
        exact ⟨k, hspec, fun j hj => Nat.not_lt.mp (hmin j (Nat.lt_succ_of_le hj))⟩
    have hmove := c.move_step none (c.run none s k)
    obtain ⟨hnone, hdepth, n, d, rest, htasks⟩ :=
      hmove.exists_enter (c.depth_run none hs k) (hbefore k le_rfl) hk
    refine ⟨k + 1, c.tree.serial n, ?_⟩
    rw [run, run_eq hs hbefore]
    exact ((c.move_step (some most) _).callDepth_iff hnone).mpr
      ⟨rfl, Nat.le_of_eq hdepth, n, d, rest, htasks, rfl⟩

end RenderContext

end TemplateLang
