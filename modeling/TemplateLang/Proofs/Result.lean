import Mathlib.Data.List.Forall2

/-! Computations that can fail: how a sequence of two succeeds, and how one ends that runs over a
list. Where only the failure of a computation matters, its outcome is what is left when the
result is forgotten; and a computation fails for certain reasons only when every step of it
does. -/

namespace TemplateLang

variable {ε ε' α β : Type} {x : Except ε α} {f : α → Except ε β} {b : β} {e : ε} {l : List α}

@[simp] theorem ok_bind (a : α) (f : α → Except ε β) : (Except.ok a >>= f) = f a := rfl

@[simp] theorem error_bind (e : ε) (f : α → Except ε β) :
    (Except.error e >>= f) = .error e := rfl

theorem bind_eq_ok : x >>= f = .ok b ↔ ∃ a, x = .ok a ∧ f a = .ok b := by
  cases x with
  | error e => simp
  | ok a => simp

theorem bind_eq_error : x >>= f = .error e ↔ x = .error e ∨ ∃ a, x = .ok a ∧ f a = .error e := by
  cases x with
  | error e => simp
  | ok a => simp

theorem map_eq_ok {g : α → β} : x.map g = .ok b ↔ ∃ a, x = .ok a ∧ g a = b := by
  cases x with
  | error e => simp [Except.map]
  | ok a => simp [Except.map]

/-- What succeeds gives what it has as an option. -/
theorem eq_ok_of_isSome (h : x.toOption.isSome) (d : α) : x = .ok (x.toOption.getD d) := by
  cases x with
  | error e => cases h
  | ok a => rfl

/-! ### Checks of lists -/

theorem forM_cons_eq (a : α) (l : List α) (f : α → Except ε Unit) :
    (a :: l).forM f = (f a >>= fun _ => l.forM f) := rfl

theorem forM_singleton_eq (a : α) (f : α → Except ε Unit) : [a].forM f = f a := by
  rw [forM_cons_eq]
  cases f a <;> rfl

theorem forM_append_eq (l m : List α) (f : α → Except ε Unit) :
    (l ++ m).forM f = (l.forM f >>= fun _ => m.forM f) := by
  induction l with
  | nil => rfl
  | cons a l ih =>
    rw [List.cons_append, forM_cons_eq, forM_cons_eq, ih]
    cases f a <;> rfl

/-- A list passes when each of its members does. -/
theorem forM_eq_ok {f : α → Except ε Unit} : l.forM f = .ok () ↔ ∀ a ∈ l, f a = .ok () := by
  induction l with
  | nil => simp [List.forM, pure, Except.pure]
  | cons a l ih =>
    rw [forM_cons_eq, bind_eq_ok, List.forall_mem_cons, ih]
    exact ⟨fun ⟨_, ha, hl⟩ => ⟨ha, hl⟩, fun ⟨ha, hl⟩ => ⟨(), ha, hl⟩⟩

/-- The failure of a list is that of a member. -/
theorem exists_of_forM_eq_error {f : α → Except ε Unit} (h : l.forM f = .error e) :
    ∃ a ∈ l, f a = .error e := by
  induction l with
  | nil => cases h
  | cons a l ih =>
    rw [forM_cons_eq, bind_eq_error] at h
    rcases h with ha | ⟨-, -, hl⟩
    · exact ⟨a, List.mem_cons_self .., ha⟩
    · obtain ⟨b, hb, he⟩ := ih hl
      exact ⟨b, List.mem_cons_of_mem _ hb, he⟩

theorem forM_flatMap {g : α → List β} {f : β → Except ε Unit} :
    (l.flatMap g).forM f = l.forM fun a => (g a).forM f := by
  induction l with
  | nil => rfl
  | cons a l ih => rw [List.flatMap_cons, forM_append_eq, forM_cons_eq, ih]

theorem forM_map (g : α → β) (f : β → Except ε Unit) (l : List α) :
    (l.map g).forM f = l.forM fun a => f (g a) := by
  induction l with
  | nil => rfl
  | cons a l ih => rw [List.map_cons, forM_cons_eq, forM_cons_eq, ih]

theorem forM_congr {f g : α → Except ε Unit} (h : ∀ a ∈ l, f a = g a) : l.forM f = l.forM g := by
  induction l with
  | nil => rfl
  | cons a l ih =>
    rw [forM_cons_eq, forM_cons_eq, h a (List.mem_cons_self ..),
      ih fun b hb => h b (List.mem_cons_of_mem _ hb)]

/-! ### Outcomes -/

/-- Whether and how a computation fails. -/
def outcome (x : Except ε α) : Except ε Unit := x.map fun _ => ()

@[simp] theorem outcome_ok (a : α) : outcome (.ok a : Except ε α) = .ok () := rfl

@[simp] theorem outcome_error (e : ε) : outcome (.error e : Except ε α) = .error e := rfl

theorem outcome_eq_ok : outcome x = .ok () ↔ ∃ a, x = .ok a := by
  cases x with
  | error e => simp
  | ok a => simp

theorem outcome_eq_error : outcome x = .error e ↔ x = .error e := by
  cases x with
  | error e => simp
  | ok a => simp

/-- A computation, and a step whose outcome does not depend on what it is given. -/
theorem outcome_bind {c c' : Except ε Unit} (hx : outcome x = c) (hf : ∀ a, outcome (f a) = c') :
    outcome (x >>= f) = (c >>= fun _ => c') := by
  subst hx
  cases x with
  | error e => rfl
  | ok a => exact hf a

/-- A step behind a computation that succeeds. -/
theorem outcome_bind_of_ok {c : Except ε Unit} (hx : outcome x = .ok ())
    (hf : ∀ a, outcome (f a) = c) : outcome (x >>= f) = c :=
  outcome_bind hx hf

/-- Changing the result leaves the outcome. -/
theorem outcome_bind_pure (x : Except ε α) (g : α → β) :
    outcome (x >>= fun a => pure (g a)) = outcome x := by
  cases x <;> rfl

theorem outcome_foldlM {step : β → α → Except ε β} {check : α → Except ε Unit}
    (h : ∀ b, ∀ a ∈ l, outcome (step b a) = check a) (b : β) :
    outcome (l.foldlM step b) = l.forM check := by
  induction l generalizing b with
  | nil => rfl
  | cons a l ih =>
    have hrest := ih fun b a ha => h b a (List.mem_cons_of_mem _ ha)
    rw [List.foldlM_cons, forM_cons_eq]
    exact outcome_bind (h b a (List.mem_cons_self ..)) hrest

theorem outcome_mapM (f : α → Except ε β) (l : List α) :
    outcome (l.mapM f) = l.forM fun a => outcome (f a) := by
  induction l with
  | nil => rfl
  | cons a l ih =>
    rw [List.mapM_cons, forM_cons_eq]
    exact outcome_bind rfl fun b => (outcome_bind_pure (l.mapM f) (b :: ·)).trans ih

/-! ### Reasons to fail -/

/-- Every error that the computation may end with satisfies `P`. -/
def FailsOnly (P : ε → Prop) (x : Except ε α) : Prop := ∀ e, x = .error e → P e

variable {P : ε → Prop}

theorem failsOnly_ok (a : α) : FailsOnly P (.ok a : Except ε α) := fun _ h => nomatch h

theorem failsOnly_error (h : P e) : FailsOnly P (.error e : Except ε α) := by
  rintro _ ⟨⟩
  exact h

theorem FailsOnly.bind (hx : FailsOnly P x) (hf : ∀ a, FailsOnly P (f a)) :
    FailsOnly P (x >>= f) := by
  intro e he
  rcases bind_eq_error.mp he with he | ⟨a, -, he⟩
  · exact hx e he
  · exact hf a e he

theorem failsOnly_foldlM {step : β → α → Except ε β}
    (h : ∀ b, ∀ a ∈ l, FailsOnly P (step b a)) (b : β) : FailsOnly P (l.foldlM step b) := by
  induction l generalizing b with
  | nil => exact failsOnly_ok b
  | cons a l ih =>
    rw [List.foldlM_cons]
    exact (h b a (List.mem_cons_self ..)).bind
      (ih fun b a ha => h b a (List.mem_cons_of_mem _ ha))

theorem failsOnly_mapM {f : α → Except ε β} (h : ∀ a ∈ l, FailsOnly P (f a)) :
    FailsOnly P (l.mapM f) := by
  induction l with
  | nil => exact failsOnly_ok []
  | cons a l ih =>
    rw [List.mapM_cons]
    exact (h a (List.mem_cons_self ..)).bind fun _ =>
      (ih fun a ha => h a (List.mem_cons_of_mem _ ha)).bind fun _ => failsOnly_ok _

theorem failsOnly_mapError {P : ε' → Prop} {f : ε → ε'} (h : ∀ e, P (f e)) (x : Except ε α) :
    FailsOnly P (x.mapError f) := by
  cases x with
  | error e => exact failsOnly_error (h e)
  | ok a => exact failsOnly_ok a

/-- A list of computations that all succeed. -/
theorem mapM_eq_ok {f : α → Except ε β} {g : α → β} (h : ∀ a, f a = .ok (g a)) (l : List α) :
    l.mapM f = .ok (l.map g) := by
  induction l with
  | nil => rfl
  | cons a l ih =>
    rw [List.mapM_cons, h a, ih]
    rfl

/-- The results of a list of computations, each with what it is computed from. -/
theorem forall₂_of_mapM_eq_ok {f : α → Except ε β} {R : α → β → Prop} {bs : List β}
    (h : l.mapM f = .ok bs) (hR : ∀ a ∈ l, ∀ b, f a = .ok b → R a b) : List.Forall₂ R l bs := by
  induction l generalizing bs with
  | nil =>
    obtain rfl : [] = bs := Except.ok.inj h
    exact .nil
  | cons a l ih =>
    rw [List.mapM_cons] at h
    obtain ⟨b, hb, h⟩ := bind_eq_ok.mp h
    obtain ⟨rest, hrest, h⟩ := bind_eq_ok.mp h
    obtain rfl := Except.ok.inj h
    exact .cons (hR a (List.mem_cons_self ..) b hb)
      (ih hrest fun a ha => hR a (List.mem_cons_of_mem _ ha))

/-- Each result of a list of computations is that of a member of the list. -/
theorem exists_of_mem_mapM {f : α → Except ε β} {bs : List β} (h : l.mapM f = .ok bs)
    (hb : b ∈ bs) : ∃ a ∈ l, f a = .ok b := by
  induction l generalizing bs with
  | nil =>
    obtain rfl : [] = bs := Except.ok.inj h
    cases hb
  | cons a l ih =>
    rw [List.mapM_cons] at h
    obtain ⟨c, hc, h⟩ := bind_eq_ok.mp h
    obtain ⟨rest, hrest, h⟩ := bind_eq_ok.mp h
    obtain rfl := Except.ok.inj h
    rcases List.mem_cons.mp hb with rfl | hb
    · exact ⟨a, List.mem_cons_self .., hc⟩
    · obtain ⟨a', ha', hfa⟩ := ih hrest hb
      exact ⟨a', List.mem_cons_of_mem _ ha', hfa⟩

theorem exists_of_forall₂ {R : α → β → Prop} {bs : List β} (h : List.Forall₂ R l bs) {a : α}
    (ha : a ∈ l) : ∃ b ∈ bs, R a b := by
  induction h with
  | nil => cases ha
  | @cons a' b _ _ hab _ ih =>
    rcases List.mem_cons.mp ha with rfl | ha
    · exact ⟨b, List.mem_cons_self .., hab⟩
    · obtain ⟨c, hc, hac⟩ := ih ha
      exact ⟨c, List.mem_cons_of_mem _ hc, hac⟩

/-! ### What an error quotes -/

/-- Both computations give the same result, or fail with errors of which `forget` leaves the
same. -/
def AlikeUpTo (forget : ε → ε') (x y : Except ε α) : Prop :=
  x.mapError forget = y.mapError forget

namespace AlikeUpTo

variable {forget : ε → ε'} {y : Except ε α} {g : α → Except ε β}

theorem refl (x : Except ε α) : AlikeUpTo forget x x := rfl

theorem error {e e' : ε} (h : forget e = forget e') :
    AlikeUpTo forget (.error e : Except ε α) (.error e') := congrArg Except.error h

theorem cases (h : AlikeUpTo forget x y) :
    (∃ a, x = .ok a ∧ y = .ok a) ∨
      ∃ e e', x = .error e ∧ y = .error e' ∧ forget e = forget e' := by
  rcases x with e | a <;> rcases y with e' | b
  · exact .inr ⟨e, e', rfl, rfl, Except.error.inj h⟩
  · cases h
  · cases h
  · obtain rfl : a = b := Except.ok.inj h
    exact .inl ⟨a, rfl, rfl⟩

theorem bind (h : AlikeUpTo forget x y) (hf : ∀ a, AlikeUpTo forget (f a) (g a)) :
    AlikeUpTo forget (x >>= f) (y >>= g) := by
  rcases h.cases with ⟨a, rfl, rfl⟩ | ⟨e, e', rfl, rfl, he⟩
  · exact hf a
  · exact error he

/-- What is the same up to a step is alike when the steps are. -/
theorem bind_same (x : Except ε α) (hf : ∀ a, AlikeUpTo forget (f a) (g a)) :
    AlikeUpTo forget (x >>= f) (x >>= g) :=
  (refl x).bind hf

theorem mapM {γ : Type} {f g : γ → Except ε α} {l : List γ}
    (h : ∀ c ∈ l, AlikeUpTo forget (f c) (g c)) : AlikeUpTo forget (l.mapM f) (l.mapM g) := by
  induction l with
  | nil => exact refl _
  | cons c l ih =>
    rw [List.mapM_cons, List.mapM_cons]
    exact (h c (List.mem_cons_self ..)).bind fun _ =>
      (ih fun c hc => h c (List.mem_cons_of_mem _ hc)).bind fun _ => refl _

theorem forM_map {γ : Type} {k : γ → α} {f : γ → Except ε Unit} {g : α → Except ε Unit}
    {l : List γ} (h : ∀ c ∈ l, AlikeUpTo forget (f c) (g (k c))) :
    AlikeUpTo forget (l.forM f) ((l.map k).forM g) := by
  induction l with
  | nil => exact refl _
  | cons c l ih =>
    rw [List.map_cons, forM_cons_eq, forM_cons_eq]
    exact (h c (List.mem_cons_self ..)).bind fun _ => ih fun c hc => h c (List.mem_cons_of_mem _ hc)

end AlikeUpTo

end TemplateLang
