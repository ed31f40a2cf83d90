import TemplateLang.File.Memory
import TemplateLang.Proofs.File.Path
import TemplateLang.Proofs.Result

/-! Places of paths. Each component leads from one place to the next, whatever files there are, so
that a path has its place before anything is looked up; looking it up gives this place or fails.
A path that does not lead up has its place below that of the directory it is joined to. -/

namespace TemplateLang

variable {fs : FileSystem} {p q : Place} {c : PathComponent} {cs : List PathComponent}
  {s t path directory : String}

namespace Place

/-- Where a component leads. -/
def step (p : Place) : PathComponent → Place
  | .root => ⟨true, []⟩
  | .current => p
  | .parent => p.up
  | .name s => p.child s

/-- The place that names lead to. -/
def below (p : Place) (names : List String) : Place := { p with names := p.names ++ names }

theorem foldl_step_name (p : Place) (names : List String) :
    (names.map PathComponent.name).foldl step p = p.below names := by
  induction names generalizing p with
  | nil => simp [below]
  | cons s names ih =>
    rw [List.map_cons, List.foldl_cons, ih, step, child, below, below]
    simp

theorem below_injective (p : Place) : Function.Injective p.below := by
  intro names names' h
  exact List.append_cancel_left (congrArg Place.names h)

end Place

namespace Path

/-- Where a path leads when no name on the way is a link. -/
def place (path : String) : Place := (components path).foldl Place.step .working

theorem place_join (hp : isAbsolute path = false) : place (join directory path) =
    ((Text.split '/' path).filterMap PathComponent.ofSegment?).foldl Place.step
      (place directory) := by
  by_cases hd : directory = ""
  · subst hd
    have hstart : ((if (Text.split '/' path).head? = some "." then [.current] else []) :
        List PathComponent).foldl Place.step .working = .working := by
      split_ifs <;> rfl
    rw [join, if_pos (by simp), place, components, if_neg (by simp [hp]), List.foldl_append,
      hstart]
    rfl
  · rw [place, components_join hd hp, List.foldl_append, place]

/-- A path that does not lead up has its place below the directory. -/
theorem place_join_of_isInside (h : IsInside path) :
    place (join directory path) = (place directory).below (names path) := by
  rw [place_join h.1, filterMap_ofSegment?_eq fun hup => h.2 (parent_mem_components.mpr hup),
    Place.foldl_step_name]

/-- Paths that are written plainly have different places in a directory. -/
theorem eq_of_place_join_eq (hs : IsPlain s) (ht : IsPlain t)
    (h : place (join directory s) = place (join directory t)) : s = t := by
  rw [place_join_of_isInside hs.isInside, place_join_of_isInside ht.isInside, hs.names_eq,
    ht.names_eq] at h
  exact Text.split_injective '/' (Place.below_injective _ h)

end Path

namespace FileSystem

theorem follow_eq_ok (h : follow p c = .ok q) : q = p.step c := by
  cases c with
  | name s =>
    rw [follow] at h
    split_ifs at h
    exact (Except.ok.inj h).symm
  | _ => exact (Except.ok.inj h).symm

theorem walk_eq_ok (h : fs.walk p cs = .ok q) : q = cs.foldl Place.step p := by
  induction cs generalizing p with
  | nil => exact (Except.ok.inj h).symm
  | cons c cs ih =>
    rw [walk] at h
    obtain ⟨r, hr, h⟩ := bind_eq_ok.mp h
    split at h
    · cases h
    · cases h
    · rw [ih h, List.foldl_cons, ← follow_eq_ok hr]

/-- A path is found where its last component leads from the directory before it. -/
theorem locate_eq_ok_iff : fs.locate path = .ok p ↔ checkPath path = .ok () ∧
    ∃ before last q, Path.components path = before ++ [last] ∧
      fs.walk .working before = .ok q ∧ follow q last = .ok p := by
  rw [locate, bind_eq_ok]
  cases checkPath path with
  | error e => simp
  | ok u =>
    cases hlast : (Path.components path).getLast? with
    | none =>
      rw [List.getLast?_eq_none_iff] at hlast
      simp [hlast]
    | some last =>
      obtain ⟨before, hbefore⟩ := List.getLast?_eq_some_iff.mp hlast
      simp [hbefore, bind_eq_ok]

/-- A path is found at its place. -/
theorem locate_eq_ok (h : fs.locate path = .ok p) : p = Path.place path := by
  obtain ⟨-, before, last, q, hcomponents, hwalk, hfollow⟩ := locate_eq_ok_iff.mp h
  rw [follow_eq_ok hfollow, walk_eq_ok hwalk, Path.place, hcomponents, List.foldl_append]
  rfl

end FileSystem

end TemplateLang
