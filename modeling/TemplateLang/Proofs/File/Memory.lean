import TemplateLang.Proofs.File.Place

/-! What operations on files keep. Directories stay directories, and a file keeps its content until
its own place is written; so a path that was found stays where it is, and what was written to it
can be read until something else is written to the same place. -/

namespace TemplateLang.FileSystem

variable {fs fs' fs'' : FileSystem} {p q : Place} {cs : List PathComponent} {ps qs : List Place}
  {path content : String}

/-- What stands in `fs` stands in `fs'`, but for the content of the files at `ps`. -/
structure Keeps (ps : List Place) (fs fs' : FileSystem) : Prop where
  directory : ∀ p, fs.find? p = some .directory → fs'.find? p = some .directory
  file : ∀ p ∉ ps, ∀ content, fs.find? p = some (.file content) →
    fs'.find? p = some (.file content)

namespace Keeps

theorem refl (ps : List Place) (fs : FileSystem) : Keeps ps fs fs :=
  ⟨fun _ h => h, fun _ _ _ h => h⟩

theorem trans (h : Keeps ps fs fs') (h' : Keeps qs fs' fs'') : Keeps (ps ++ qs) fs fs'' where
  directory p hp := h'.directory p (h.directory p hp)
  file p hnot content hp := by
    rw [List.mem_append, not_or] at hnot
    exact h'.file p hnot.2 content (h.file p hnot.1 content hp)

/-- Ways through directories stay. -/
theorem walk (h : Keeps ps fs fs') (hw : fs.walk p cs = .ok q) : fs'.walk p cs = .ok q := by
  induction cs generalizing p with
  | nil => exact hw
  | cons c cs ih =>
    rw [FileSystem.walk] at hw ⊢
    obtain ⟨r, hr, hw⟩ := bind_eq_ok.mp hw
    rw [hr, ok_bind]
    split at hw
    · cases hw
    · cases hw
    · next hfind =>
      rw [h.directory r hfind]
      exact ih hw

theorem locate (h : Keeps ps fs fs') (hl : fs.locate path = .ok p) : fs'.locate path = .ok p := by
  rw [locate_eq_ok_iff] at hl ⊢
  obtain ⟨hcheck, before, last, q, hcomponents, hwalk, hfollow⟩ := hl
  exact ⟨hcheck, before, last, q, hcomponents, h.walk hwalk, hfollow⟩

end Keeps

/-! ### Reading -/

theorem read_eq_ok_iff : fs.read path = .ok content ↔ ∃ p, fs.locate path = .ok p ∧
    fs.find? p = some (.file content) ∧ endsAsDirectory path = false := by
  rw [read, bind_eq_ok]
  refine exists_congr fun p => and_congr_right fun _ => ?_
  cases fs.find? p with
  | none => simp
  | some entry =>
    cases entry with
    | directory => simp
    | file old => cases endsAsDirectory path <;> simp

/-- A file whose place is not written is read as before. -/
theorem Keeps.read (h : Keeps ps fs fs') (hr : fs.read path = .ok content)
    (hp : Path.place path ∉ ps) : fs'.read path = .ok content := by
  rw [read_eq_ok_iff] at hr ⊢
  obtain ⟨p, hlocate, hfind, hends⟩ := hr
  rw [← locate_eq_ok hlocate] at hp
  exact ⟨p, h.locate hlocate, h.file p hp content hfind, hends⟩

/-! ### Putting -/

/-- Places that are there without being listed are directories. -/
theorem isGiven_eq_false (h : fs.find? p ≠ some .directory) : p.isGiven = false := by
  by_contra hgiven
  simp only [Bool.not_eq_false] at hgiven
  exact h (by rw [find?, if_pos hgiven])

theorem keeps_put_directory (h : fs.find? p = none) : Keeps [] fs (fs.put p .directory) := by
  have hfree : fs.find? p ≠ some .directory := by simp [h]
  have hgiven := isGiven_eq_false hfree
  refine ⟨fun q hq => ?_, fun q _ content hq => ?_⟩
  · rw [find?_put fs p q _ hgiven]
    split_ifs
    · rfl
    · exact hq
  · have hne : q ≠ p := by
      rintro rfl
      rw [h] at hq
      cases hq
    rw [find?_put fs p q _ hgiven, if_neg hne, hq]

theorem keeps_put_file (h : fs.find? p ≠ some .directory) (content : String) :
    Keeps [p] fs (fs.put p (.file content)) := by
  have hgiven := isGiven_eq_false h
  refine ⟨fun q hq => ?_, fun q hnot old hq => ?_⟩
  · have hne : q ≠ p := by
      rintro rfl
      exact h hq
    rw [find?_put fs p q _ hgiven, if_neg hne, hq]
  · rw [find?_put fs p q _ hgiven, if_neg fun he => hnot (List.mem_singleton.mpr he), hq]

/-! ### Operations -/

theorem keeps_makeDirectories (fs : FileSystem) (p : Place) (made : Bool)
    (cs : List PathComponent) : Keeps [] fs (fs.makeDirectories p made cs).2 := by
  induction cs generalizing fs p made with
  | nil => exact .refl [] fs
  | cons c cs ih =>
    rw [makeDirectories]
    cases follow p c with
    | error e => exact .refl [] fs
    | ok q =>
      cases hfind : fs.find? q with
      | none =>
        simp only [hfind]
        exact (keeps_put_directory hfind).trans (ih _ q true)
      | some entry =>
        cases entry with
        | directory =>
          simp only [hfind]
          exact ih fs q made
        | file content =>
          simp only [hfind]
          exact .refl [] fs

theorem keeps_createDirectories (fs : FileSystem) (path : String) :
    Keeps [] fs (fs.createDirectories path).2 := by
  rw [createDirectories]
  cases checkPath path with
  | error e => exact .refl [] fs
  | ok u => exact keeps_makeDirectories ..

/-- Makes the directory that a path leads to its last component in. -/
def createParent (fs : FileSystem) (path : String) : Except FileError Unit × FileSystem :=
  match Path.parent? path with
  | none => (.ok (), fs)
  | some parent => fs.createDirectories parent

theorem keeps_createParent (fs : FileSystem) (path : String) :
    Keeps [] fs (fs.createParent path).2 := by
  rw [createParent]
  cases Path.parent? path with
  | none => exact .refl [] fs
  | some parent => exact keeps_createDirectories fs parent

/-- What is written can be read, and nothing changes but the file at the place of the path. -/
theorem write_eq_ok (h : fs.write path content = (.ok (), fs')) :
    fs'.read path = .ok content ∧ Keeps [Path.place path] fs fs' := by
  obtain ⟨p, hlocate, hfind, hends, rfl⟩ : ∃ p, fs.locate path = .ok p ∧
      fs.find? p ≠ some .directory ∧ endsAsDirectory path = false ∧
      fs' = fs.put p (.file content) := by
    rw [write] at h
    cases hlocate : fs.locate path with
    | error e => simp [hlocate] at h
    | ok p =>
      cases hends : endsAsDirectory path with
      | true =>
        simp only [hlocate, hends] at h
        split at h <;> cases (Prod.mk.inj h).1
      | false =>
        simp only [hlocate, hends] at h
        split at h
        · cases (Prod.mk.inj h).1
        · next old hfind =>
          exact ⟨p, rfl, by simp [hfind], rfl, (Prod.mk.inj h).2.symm⟩
        · next hfind =>
          exact ⟨p, rfl, by simp [hfind], rfl, (Prod.mk.inj h).2.symm⟩
  have hkeeps := keeps_put_file hfind content
  refine ⟨read_eq_ok_iff.mpr ⟨p, hkeeps.locate hlocate, ?_, hends⟩, ?_⟩
  · rw [find?_put fs p p _ (isGiven_eq_false hfind), if_pos rfl]
  · rwa [← locate_eq_ok hlocate]

end TemplateLang.FileSystem
