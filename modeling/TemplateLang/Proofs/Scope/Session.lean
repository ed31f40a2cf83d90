import Mathlib.Data.List.Induction
import TemplateLang.Proofs.Scope.Frame
import TemplateLang.Scope.Session

/-! Frames over a run of operations. Which frame is open is read off the run: an entry that
succeeded opened it, and neither an exit nor the guard of that entry came since. Every step
keeps the scope in agreement with the run, so the scope answers as the run says: an entry
succeeds when no frame is open, a guard closes the frame of its own entry alone, and a slot
has the first binding that was made for it since that entry. -/

namespace TemplateLang

namespace Session

variable {s : Session} {f : Frame} {k : ℕ} {operations since : List Operation}
  {operation : Operation}

/-! ### What a run says -/

/-- The bindings that an operation tries to make. -/
def Operation.attempts : Operation → List Binding
  | .seed b => [b]
  | .seedShared bundle bidiDir => Scope.sharedBindings bundle bidiDir
  | _ => []

/-- An operation binds no slot twice. -/
theorem Operation.attempts_slots (operation : Operation) :
    operation.attempts.Pairwise fun b b' => b.slot ≠ b'.slot := by
  cases operation with
  | seed b => exact List.pairwise_singleton ..
  | seedShared bundle bidiDir => simp [attempts, Scope.sharedBindings, Binding.slot]
  | _ => exact List.Pairwise.nil

/-- The bindings that are made in a frame, the first of them first. -/
def seeded (since : List Operation) : List Binding :=
  since.foldl (fun bs operation => bs ++ admitted bs operation.attempts) []

/-- The frame that the entry before `since` opened, which gave guard `k`, is still open. -/
structure OpenSince (operations : List Operation) (k : ℕ) (since : List Operation) : Prop where
  entered : ∃ before answer, operations = before ++ .enter :: since ∧
    (after before).guards.length = k ∧ ((after before).step .enter).1 = .ok answer
  not_exited : .exit ∉ since
  not_dropped : .drop k ∉ since

theorem after_concat (operations : List Operation) (operation : Operation) :
    after (operations ++ [operation]) = ((after operations).step operation).2 := by
  simp [after]

theorem seeded_concat (since : List Operation) (operation : Operation) :
    seeded (since ++ [operation]) =
      seeded since ++ admitted (seeded since) operation.attempts := by
  simp [seeded]

theorem not_openSince_nil : ¬ OpenSince [] k since := by
  rintro ⟨⟨before, answer, heq, -⟩, -⟩
  simp at heq

/-- After one more operation a frame is open that was open before, or that the operation opened. -/
theorem openSince_concat : OpenSince (operations ++ [operation]) k since ↔
    (∃ earlier, since = earlier ++ [operation] ∧ OpenSince operations k earlier ∧
      operation ≠ .exit ∧ operation ≠ .drop k) ∨
    (since = [] ∧ operation = .enter ∧ (after operations).guards.length = k ∧
      ∃ answer, ((after operations).step .enter).1 = .ok answer) := by
  constructor
  · rintro ⟨⟨before, answer, heq, hlength, hok⟩, hexit, hdrop⟩
    rcases List.eq_nil_or_concat since with rfl | ⟨earlier, last, rfl⟩
    · obtain ⟨rfl, hlast⟩ := List.append_inj' heq rfl
      exact .inr ⟨rfl, by simpa using hlast, hlength, answer, hok⟩
    · rw [List.concat_eq_append] at heq hexit hdrop ⊢
      rw [← List.cons_append, ← List.append_assoc] at heq
      obtain ⟨rfl, hlast⟩ := List.append_inj' heq rfl
      obtain rfl : operation = last := by simpa using hlast
      rw [List.mem_append, List.mem_singleton, not_or] at hexit hdrop
      exact .inl ⟨earlier, rfl, ⟨⟨before, answer, rfl, hlength, hok⟩, hexit.1, hdrop.1⟩,
        fun h => hexit.2 h.symm, fun h => hdrop.2 h.symm⟩
  · rintro (⟨earlier, rfl, ⟨⟨before, answer, rfl, hlength, hok⟩, hexit, hdrop⟩, hne, hne'⟩ |
      ⟨rfl, rfl, hlength, answer, hok⟩)
    · refine ⟨⟨before, answer, by simp, hlength, hok⟩, ?_, ?_⟩
      · simpa [hexit] using hne.symm
      · simpa [hdrop] using hne'.symm
    · exact ⟨⟨operations, answer, rfl, hlength, hok⟩, by simp, by simp⟩

/-- While a frame is open, an operation that does not close it leaves that frame alone open. -/
theorem openSince_kept (hf : (after operations).scope.frame = some f)
    (honly : ∀ k' since', OpenSince operations k' since' ↔ k' = k ∧ since' = since)
    (hexit : operation ≠ .exit) (hdrop : operation ≠ .drop k) (k' : ℕ) (since' : List Operation) :
    OpenSince (operations ++ [operation]) k' since' ↔ k' = k ∧ since' = since ++ [operation] := by
  rw [openSince_concat]
  constructor
  · rintro (⟨earlier, rfl, hopen, -, -⟩ | ⟨-, -, -, answer, hok⟩)
    · obtain ⟨rfl, rfl⟩ := (honly k' earlier).mp hopen
      exact ⟨rfl, rfl⟩
    · simp [step, Scope.enter_of_some hf] at hok
  · rintro ⟨rfl, rfl⟩
    exact .inl ⟨since, rfl, (honly _ _).mpr ⟨rfl, rfl⟩, hexit, hdrop⟩

/-! ### Guards -/

/-- The entries are counted, and each guard has the count of its own entry. -/
structure Numbered (s : Session) : Prop where
  generation : s.scope.generation = s.guards.length
  guards : ∀ k g, s.guards[k]? = some g → g.generation = k + 1

theorem numbered_start : Numbered start := ⟨rfl, by simp [start]⟩

theorem step_enter_of_none (hf : s.scope.frame = none) :
    s.step .enter = (.ok none, ⟨⟨some [], s.scope.generation + 1⟩,
      s.guards ++ [⟨s.scope.generation + 1⟩]⟩) := by
  rw [step, Scope.enter_of_none hf]

/-- An operation other than an entry outside a frame, an exit and the drop of a guard only makes
bindings. -/
theorem step_eq_seedAll (henter : operation = .enter → s.scope.isActive)
    (hexit : operation ≠ .exit) (hdrop : ∀ k, operation ≠ .drop k) :
    (s.step operation).2 = { s with scope := (s.scope.seedAll operation.attempts).2 } := by
  cases operation with
  | enter =>
    obtain ⟨f, hf⟩ := Option.isSome_iff_exists.mp (henter rfl)
    rw [step, Scope.enter_of_some hf]
    rfl
  | seed b =>
    simp only [step, Operation.attempts, Scope.seedAll]
    cases s.scope.seed b with
    | error e => rfl
    | ok scope => rfl
  | seedShared bundle bidiDir => rfl
  | get slot => rfl
  | exit => exact absurd rfl hexit
  | drop k => exact absurd rfl (hdrop k)

/-- The guard of the latest entry closes the frame. -/
theorem Numbered.step_drop_last (hs : Numbered s) (hk : s.guards.length = k + 1) :
    (s.step (.drop k)).2 = { s with scope := s.scope.exit } := by
  have hlt : k < s.guards.length := by omega
  have hg : s.guards[k]? = some s.guards[k] := List.getElem?_eq_getElem hlt
  have heq : s.scope.generation = s.guards[k].generation := by
    rw [hs.generation, hs.guards k _ hg, hk]
  simp only [step, hg]
  rw [Scope.drop, if_pos heq]

/-- A guard of an earlier entry changes nothing. -/
theorem Numbered.step_drop_stale (hs : Numbered s) (hk : s.guards.length ≠ k + 1) :
    (s.step (.drop k)).2 = s := by
  cases hg : s.guards[k]? with
  | none => simp only [step, hg]
  | some g =>
    have hne : s.scope.generation ≠ g.generation := by
      rwa [hs.generation, hs.guards k g hg]
    simp only [step, hg]
    rw [Scope.drop, if_neg hne]

/-- Outside a frame every operation but an entry changes nothing. -/
theorem step_of_none (hf : s.scope.frame = none) (henter : operation ≠ .enter) :
    (s.step operation).2 = s := by
  by_cases hexit : operation = .exit
  · subst hexit
    rw [step, Scope.exit_of_none hf]
  by_cases hdrop : ∃ k, operation = .drop k
  · obtain ⟨k, rfl⟩ := hdrop
    cases hg : s.guards[k]? with
    | none => simp only [step, hg]
    | some g => simp only [step, hg, Scope.drop_of_none hf]
  · rw [step_eq_seedAll (absurd · henter) hexit (not_exists.mp hdrop),
      Scope.seedAll_of_none hf]

/-- What a step does to the generation and the guards, the entry of a frame apart. -/
theorem step_counts (h : operation = .enter → s.scope.isActive) :
    (s.step operation).2.scope.generation = s.scope.generation ∧
      (s.step operation).2.guards = s.guards := by
  by_cases hexit : operation = .exit
  · subst hexit
    exact ⟨rfl, rfl⟩
  by_cases hdrop : ∃ k, operation = .drop k
  · obtain ⟨k, rfl⟩ := hdrop
    cases hg : s.guards[k]? with
    | none => simp only [step, hg, and_self]
    | some g =>
      simp only [step, hg, and_true]
      rw [Scope.drop_generation]
  · rw [step_eq_seedAll h hexit (not_exists.mp hdrop)]
    exact ⟨Scope.seedAll_generation .., rfl⟩

theorem Numbered.step (hs : Numbered s) (operation : Operation) :
    Numbered (s.step operation).2 := by
  by_cases h : operation = .enter → s.scope.isActive
  · obtain ⟨hgeneration, hguards⟩ := step_counts h
    exact ⟨by rw [hgeneration, hguards, hs.generation], by rw [hguards]; exact hs.guards⟩
  · obtain ⟨rfl, hinactive⟩ := Classical.not_imp.mp h
    have hf : s.scope.frame = none := by simpa [Scope.isActive] using hinactive
    rw [step_enter_of_none hf]
    refine ⟨by simp [hs.generation], fun k g hg => ?_⟩
    rcases Nat.lt_or_ge k s.guards.length with hk | hk
    · rw [List.getElem?_append_left hk] at hg
      exact hs.guards k g hg
    · rw [List.getElem?_append_right hk, List.getElem?_singleton] at hg
      obtain ⟨hzero, rfl⟩ : k - s.guards.length = 0 ∧ _ = g := by simpa using hg
      rw [hs.generation, Nat.le_antisymm (Nat.sub_eq_zero_iff_le.mp hzero) hk]

theorem numbered_after (operations : List Operation) : Numbered (after operations) := by
  induction operations using List.reverseRecOn with
  | nil => exact numbered_start
  | append_singleton operations operation ih => rw [after_concat]; exact ih.step operation

/-- The counter of the scope is at most the number of entries that were tried. -/
theorem generation_le_count (operations : List Operation) :
    (after operations).scope.generation ≤ operations.count .enter := by
  induction operations using List.reverseRecOn with
  | nil => exact Nat.le_refl 0
  | append_singleton operations operation ih =>
    rw [after_concat, List.count_append]
    by_cases h : operation = .enter → (after operations).scope.isActive
    · rw [(step_counts h).1]
      omega
    · obtain ⟨rfl, hinactive⟩ := Classical.not_imp.mp h
      have hf : (after operations).scope.frame = none := by
        simpa [Scope.isActive] using hinactive
      rw [step_enter_of_none hf, List.count_singleton_self]
      exact Nat.succ_le_succ ih

/-! ### The open frame -/

/-- The scope is as the run says. -/
inductive Follows (operations : List Operation) : Prop
  | closed (hf : (after operations).scope.frame = none)
      (hopen : ∀ k since, ¬ OpenSince operations k since)
  | opened (k : ℕ) (since : List Operation) (f : Frame)
      (hf : (after operations).scope.frame = some f)
      (hopen : ∀ k' since', OpenSince operations k' since' ↔ k' = k ∧ since' = since)
      (hlast : (after operations).guards.length = k + 1) (hbound : Lookups f (seeded since))

theorem follows_nil : Follows [] := .closed rfl fun _ _ => not_openSince_nil

/-- An entry opens a frame without bindings. -/
theorem follows_entered (hf : (after operations).scope.frame = none)
    (hopen : ∀ k since, ¬ OpenSince operations k since) :
    Follows (operations ++ [.enter]) := by
  have hstep := step_enter_of_none hf
  refine .opened (after operations).guards.length [] [] ?_ (fun k since => ?_) ?_ fun _ => rfl
  · rw [after_concat, hstep]
  · rw [openSince_concat, hstep]
    constructor
    · rintro (⟨earlier, -, hearlier, -⟩ | ⟨rfl, -, rfl, -⟩)
      · exact absurd hearlier (hopen k earlier)
      · exact ⟨rfl, rfl⟩
    · rintro ⟨rfl, rfl⟩
      exact .inr ⟨rfl, rfl, rfl, none, rfl⟩
  · rw [after_concat, hstep]
    simp

/-- An exit, and the guard of the frame's own entry, close the frame. -/
theorem follows_left (h : operation = .exit ∨ operation = .drop k)
    (hopen : ∀ k' since', OpenSince operations k' since' ↔ k' = k ∧ since' = since)
    (hlast : (after operations).guards.length = k + 1) : Follows (operations ++ [operation]) := by
  refine .closed ?_ fun k' since' => ?_
  · rw [after_concat]
    rcases h with rfl | rfl
    · rfl
    · rw [(numbered_after operations).step_drop_last hlast]
      rfl
  · rw [openSince_concat]
    rintro (⟨earlier, -, hearlier, hexit, hdrop⟩ | ⟨-, rfl, -⟩)
    · obtain ⟨rfl, -⟩ := (hopen k' earlier).mp hearlier
      exact h.elim hexit hdrop
    · simp at h

/-- Any other operation makes the bindings that it tries to make, if they are admitted. -/
theorem follows_kept (hexit : operation ≠ .exit) (hdrop : operation ≠ .drop k)
    (hf : (after operations).scope.frame = some f)
    (hopen : ∀ k' since', OpenSince operations k' since' ↔ k' = k ∧ since' = since)
    (hlast : (after operations).guards.length = k + 1) (hbound : Lookups f (seeded since)) :
    Follows (operations ++ [operation]) := by
  have hkept := openSince_kept hf hopen hexit hdrop
  by_cases hstale : ∃ j, operation = .drop j
  · obtain ⟨j, rfl⟩ := hstale
    have hne : (after operations).guards.length ≠ j + 1 := by
      rintro h
      exact hdrop (by rw [Nat.succ.inj (hlast.symm.trans h)])
    have hstep := (numbered_after operations).step_drop_stale hne
    refine .opened k _ f ?_ hkept ?_ ?_
    · rw [after_concat, hstep, hf]
    · rw [after_concat, hstep, hlast]
    · have hnothing : admitted (seeded since) (Operation.drop j).attempts = [] := rfl
      rwa [seeded_concat, hnothing, List.append_nil]
  · have hstep := step_eq_seedAll (s := after operations) (fun _ => by simp [Scope.isActive, hf])
      hexit (not_exists.mp hstale)
    obtain ⟨f', hseeded, hbound'⟩ := Scope.seedAll_eq hf hbound operation.attempts_slots
    refine .opened k _ f' ?_ hkept ?_ ?_
    · rw [after_concat, hstep, hseeded]
    · rw [after_concat, hstep, hlast]
    · rwa [seeded_concat]

theorem Follows.step (h : Follows operations) (operation : Operation) :
    Follows (operations ++ [operation]) := by
  rcases h with ⟨hf, hopen⟩ | ⟨k, since, f, hf, hopen, hlast, hbound⟩
  · by_cases henter : operation = .enter
    · subst henter
      exact follows_entered hf hopen
    · refine .closed (by rw [after_concat, step_of_none hf henter, hf]) fun k since => ?_
      rw [openSince_concat]
      rintro (⟨earlier, -, hearlier, -⟩ | ⟨-, rfl, -⟩)
      · exact hopen k earlier hearlier
      · exact henter rfl
  · by_cases hleft : operation = .exit ∨ operation = .drop k
    · exact follows_left hleft hopen hlast
    · obtain ⟨hexit, hdrop⟩ := not_or.mp hleft
      exact follows_kept hexit hdrop hf hopen hlast hbound

theorem follows_run (operations : List Operation) : Follows operations := by
  induction operations using List.reverseRecOn with
  | nil => exact follows_nil
  | append_singleton operations operation ih => exact ih.step operation

/-! ### The discipline of a run -/

theorem fails_unchanged {e : CompileError} (hshared : ∀ bundle bidiDir,
    operation ≠ .seedShared bundle bidiDir) (h : (s.step operation).1 = .error e) :
    (s.step operation).2 = s := by
  cases operation with
  | enter =>
    simp only [step] at h ⊢
    cases henter : s.scope.enter with
    | error e' => rfl
    | ok entered => simp [henter] at h
  | seed b =>
    simp only [step] at h ⊢
    cases hseed : s.scope.seed b with
    | error e' => rfl
    | ok scope => simp [hseed] at h
  | seedShared bundle bidiDir => exact absurd rfl (hshared bundle bidiDir)
  | get slot => rfl
  | exit => simp [step] at h
  | drop k =>
    cases hg : s.guards[k]? with
    | none => simp only [step, hg]
    | some g => simp [step, hg] at h

/-- What the operations do after a run, as the run says. -/
structure Disciplined (operations : List Operation) : Prop where
  active : (after operations).scope.isActive ↔ ∃ k since, OpenSince operations k since
  /-- An entry succeeds exactly when no frame is open. -/
  enters : (∃ answer, ((after operations).step .enter).1 = .ok answer) ↔
    ¬ ∃ k since, OpenSince operations k since
  /-- A guard closes the frame that its own entry opened. -/
  closes : ∀ k since, OpenSince operations k since →
    ((after operations).step (.drop k)).2 =
      { after operations with scope := (after operations).scope.exit }
  /-- A guard leaves every other frame open. -/
  spares : ∀ k, (∀ since, ¬ OpenSince operations k since) →
    ((after operations).step (.drop k)).2 = after operations
  /-- A slot is bound exactly when a frame is open in which it has no binding yet. -/
  seeds : ∀ b, (∃ answer, ((after operations).step (.seed b)).1 = .ok answer) ↔
    ∃ k since, OpenSince operations k since ∧ ∀ b' ∈ seeded since, b'.slot ≠ b.slot
  /-- A slot has the first binding that was made for it in the open frame. -/
  gets : ∀ slot answer, ((after operations).step (.get slot)).1 = .ok answer ↔
    ∃ k since b, OpenSince operations k since ∧
      (seeded since).find? (·.slot = slot) = some b ∧ answer = some b
  /-- What fails changes nothing, the binding of several slots apart. -/
  fails : ∀ operation e, (∀ bundle bidiDir, operation ≠ .seedShared bundle bidiDir) →
    ((after operations).step operation).1 = .error e →
      ((after operations).step operation).2 = after operations
  /-- Fewer entries than a counter can count do not wrap it. -/
  counts : (after operations).scope.generation ≤ operations.count .enter

theorem disciplined_of_closed (hf : (after operations).scope.frame = none)
    (hopen : ∀ k since, ¬ OpenSince operations k since) : Disciplined operations where
  active := by
    simp [Scope.isActive, hf, hopen]
  enters := by
    simp [step_enter_of_none hf, hopen]
  closes k since h := absurd h (hopen k since)
  spares k _ := step_of_none hf (by simp)
  seeds b := by
    simp [step, Scope.seed_of_none hf, hopen]
  gets slot answer := by
    simp [step, Scope.get, hf, hopen, Except.map]
  fails _ _ := fails_unchanged
  counts := generation_le_count operations

theorem disciplined_of_opened (hf : (after operations).scope.frame = some f)
    (hopen : ∀ k' since', OpenSince operations k' since' ↔ k' = k ∧ since' = since)
    (hlast : (after operations).guards.length = k + 1) (hbound : Lookups f (seeded since)) :
    Disciplined operations where
  active := by
    simp [Scope.isActive, hf, hopen]
  enters := by
    simp [step, Scope.enter_of_some hf, hopen]
  closes k' since' h := by
    obtain ⟨rfl, -⟩ := (hopen k' since').mp h
    exact (numbered_after operations).step_drop_last hlast
  spares k' h := by
    refine (numbered_after operations).step_drop_stale fun hlast' => ?_
    have hk : k' = k := Nat.succ.inj (hlast'.symm.trans hlast)
    exact h since ((hopen k' since).mpr ⟨hk, rfl⟩)
  seeds b := by
    have hfree : f.any (·.slot = b.slot) = false ↔ ∀ b' ∈ seeded since, b'.slot ≠ b.slot := by
      rw [hbound.any_eq, List.any_eq_false]
      simp
    simp only [hopen]
    cases hb : f.any (·.slot = b.slot) with
    | true =>
      simpa [step, Scope.seed_of_taken hf hb] using mt hfree.mpr (by simp [hb])
    | false =>
      simpa [step, Scope.seed_of_free hf hb] using hfree.mp hb
  gets slot answer := by
    simp only [hopen, step, Scope.get, hf, Option.bind_some, hbound slot]
    cases hb : (seeded since).find? (·.slot = slot) with
    | none => simp [Except.map, hb]
    | some b =>
      constructor
      · intro h
        exact ⟨k, since, b, ⟨rfl, rfl⟩, hb, (Except.ok.inj h).symm⟩
      · rintro ⟨_, _, b', ⟨-, hsince⟩, hb', rfl⟩
        rw [hsince, hb] at hb'
        rw [Option.some.inj hb']
        rfl
  fails _ _ := fails_unchanged
  counts := generation_le_count operations

/-- Every run keeps the discipline of frames. -/
theorem disciplined (operations : List Operation) : Disciplined operations := by
  rcases follows_run operations with ⟨hf, hopen⟩ | ⟨k, since, f, hf, hopen, hlast, hbound⟩
  · exact disciplined_of_closed hf hopen
  · exact disciplined_of_opened hf hopen hlast hbound

/-- A guard that comes late leaves the frame of the second entry open. -/
example : (after [.enter, .exit, .enter, .seed (.bidiGlobalDir .rtl), .drop 0]).scope.frame =
    some [.bidiGlobalDir .rtl] := by
  decide

end Session

end TemplateLang
