import Mathlib.Data.List.Basic
import TemplateLang.File.Path
import TemplateLang.Proofs.Text.Segments

/-! Components of paths. Besides what a path begins with they are those of its segments, so that a
relative path within a directory has the components of both. A path of which every segment is a
name is written in one way only. -/

namespace TemplateLang

variable {s f path directory : String} {c : PathComponent}

namespace PathComponent

/-- Segments that name a file or directory. -/
def IsName (s : String) : Prop := s ≠ "" ∧ s ≠ "." ∧ s ≠ ".."

instance (s : String) : Decidable (IsName s) := inferInstanceAs (Decidable (_ ∧ _))

theorem ofSegment?_of_isName (h : IsName s) : ofSegment? s = some (.name s) := by
  obtain ⟨hempty, hdot, hdots⟩ := h
  simp [ofSegment?, hempty, hdot, hdots]

/-- Segments are names, the dots that lead up, or nothing. -/
theorem ofSegment?_cases (s : String) :
    IsName s ∨ s = ".." ∨ ¬ IsName s ∧ ofSegment? s = none := by
  by_cases hdots : s = ".."
  · exact .inr (.inl hdots)
  · by_cases hidle : s = "" ∨ s = "."
    · refine .inr (.inr ⟨fun h => ?_, by simp [ofSegment?, hidle]⟩)
      rcases hidle with hs | hs
      · exact h.1 hs
      · exact h.2.1 hs
    · rw [not_or] at hidle
      exact .inl ⟨hidle.1, hidle.2, hdots⟩

theorem ofSegment?_eq_parent : ofSegment? s = some .parent ↔ s = ".." := by
  constructor
  · intro h
    rcases ofSegment?_cases s with hname | hdots | ⟨-, hnone⟩
    · rw [ofSegment?_of_isName hname] at h
      cases h
    · exact hdots
    · rw [hnone] at h
      cases h
  · rintro rfl
    rfl

theorem isName_of_ofSegment? {name : String} (h : ofSegment? s = some (.name name)) :
    IsName s ∧ s = name := by
  rcases ofSegment?_cases s with hname | rfl | ⟨-, hnone⟩
  · rw [ofSegment?_of_isName hname] at h
    exact ⟨hname, PathComponent.name.inj (Option.some.inj h)⟩
  · cases h
  · rw [hnone] at h
    cases h

/-- A segment with a character besides dots is a name. -/
theorem isName_of_mem {c : Char} (h : c ∈ s.toList) (hc : c ≠ '.') : IsName s := by
  refine ⟨?_, ?_, ?_⟩ <;> rintro rfl
  · cases h
  · exact hc (List.mem_singleton.mp h)
  · exact hc (by simpa using h)

theorem isName_append (s : String) {suffix : String} (h : suffix.toList.any (· ≠ '.')) :
    IsName (s ++ suffix) := by
  obtain ⟨c, hmem, hc⟩ := List.any_eq_true.mp h
  exact isName_of_mem (by simp [hmem]) (of_decide_eq_true hc)

/-- A segment without dots is a name unless it is empty. -/
theorem isName_of_not_mem (h : '.' ∉ s.toList) (hs : s ≠ "") : IsName s := by
  obtain ⟨c, hc⟩ := List.exists_mem_of_ne_nil s.toList fun hnil =>
    hs (String.toList_eq_nil_iff.mp hnil)
  exact isName_of_mem hc fun hdot => h (hdot ▸ hc)

end PathComponent

namespace Path

open PathComponent

/-- Paths without a segment that is empty or only dots. -/
def IsPlain (path : String) : Prop := ∀ s ∈ Text.split '/' path, IsName s

/-- Paths that are relative and do not lead up. -/
def IsInside (path : String) : Prop :=
  isAbsolute path = false ∧ PathComponent.parent ∉ components path

instance (path : String) : Decidable (IsPlain path) :=
  inferInstanceAs (Decidable (∀ s ∈ Text.split '/' path, IsName s))

instance (path : String) : Decidable (IsInside path) := inferInstanceAs (Decidable (_ ∧ _))

/-! ### Absolute paths -/

theorem isAbsolute_append (s t : String) :
    isAbsolute (s ++ t) = if s = "" then isAbsolute t else isAbsolute s := by
  rw [isAbsolute, isAbsolute, isAbsolute, Text.head?_toList_append]
  split_ifs <;> rfl

/-- An absolute path begins with an empty segment. -/
theorem head?_split_of_isAbsolute (h : isAbsolute path) :
    (Text.split '/' path).head? = some "" := by
  obtain ⟨rest, hrest⟩ := List.head?_eq_some_iff.mp (of_decide_eq_true h)
  rw [Text.split, hrest, Text.splitChars_cons_self]
  rfl

theorem isAbsolute_eq_false_of_head? (h : (Text.split '/' path).head? = some s) (hs : s ≠ "") :
    isAbsolute path = false := by
  by_contra habsolute
  simp only [Bool.not_eq_false] at habsolute
  rw [head?_split_of_isAbsolute habsolute] at h
  exact hs (Option.some.inj h).symm

/-! ### Components -/

theorem mem_components_iff (hroot : c ≠ .root) (hcurrent : c ≠ .current) :
    c ∈ components path ↔ ∃ s ∈ Text.split '/' path, ofSegment? s = some c := by
  rw [components, List.mem_append, List.mem_filterMap, or_iff_right]
  split_ifs <;> simp [hroot, hcurrent]

theorem parent_mem_components : .parent ∈ components path ↔ ".." ∈ Text.split '/' path := by
  rw [mem_components_iff (by simp) (by simp)]
  simp only [ofSegment?_eq_parent, exists_eq_right]

theorem isName_of_mem_components (h : .name s ∈ components path) :
    IsName s ∧ s ∈ Text.split '/' path := by
  obtain ⟨t, ht, hs⟩ := (mem_components_iff (by simp) (by simp)).mp h
  obtain ⟨hname, rfl⟩ := isName_of_ofSegment? hs
  exact ⟨hname, ht⟩

/-- What stands behind the first segment adds the components of its segments. -/
theorem components_eq_append {other : String} {cs : List PathComponent}
    (habsolute : isAbsolute other = isAbsolute path)
    (hhead : (Text.split '/' other).head? = (Text.split '/' path).head?)
    (hsegments : (Text.split '/' other).filterMap ofSegment? =
      (Text.split '/' path).filterMap ofSegment? ++ cs) :
    components other = components path ++ cs := by
  rw [components, components, habsolute, hhead, hsegments, List.append_assoc]

/-- A relative path within a directory has the components of both. -/
theorem components_join (hd : directory ≠ "") (hp : isAbsolute path = false) :
    components (join directory path) =
      components directory ++ (Text.split '/' path).filterMap ofSegment? := by
  have hhead : ∀ (s : String) (rest : List String),
      (Text.split '/' s ++ rest).head? = (Text.split '/' s).head? := fun s rest =>
    List.head?_append_of_ne_nil _ (Text.split_ne_nil _ _)
  rw [join, hp, if_neg (by simp [hd])]
  split_ifs with hslash
  · obtain ⟨before, hbefore⟩ := List.getLast?_eq_some_iff.mp hslash
    obtain ⟨base, rfl⟩ : ∃ base, directory = base ++ '/'.toString :=
      ⟨String.ofList before, by rw [← String.toList_inj, hbefore]; simp⟩
    have hdirectory : Text.split '/' (base ++ '/'.toString) = Text.split '/' base ++ [""] := by
      have hsplit : Text.split '/' (base ++ '/'.toString ++ "") =
          Text.split '/' base ++ Text.split '/' "" := Text.split_append_separator base ""
      rwa [String.append_empty, Text.split_of_not_mem (s := "") (by decide)] at hsplit
    refine components_eq_append ((isAbsolute_append ..).trans (if_neg hd)) ?_ ?_
    · rw [Text.split_append_separator, hdirectory, hhead, hhead]
    · rw [Text.split_append_separator, hdirectory, List.filterMap_append, List.filterMap_append]
      simp [ofSegment?]
  · have hpath : Text.split '/' (directory ++ "/" ++ path) =
        Text.split '/' directory ++ Text.split '/' path := Text.split_append_separator ..
    refine components_eq_append ?_ (by rw [hpath, hhead]) (by rw [hpath, List.filterMap_append])
    rw [isAbsolute_append, if_neg (by simp), isAbsolute_append, if_neg hd]

/-! ### Names of directories and files -/

theorem isName_of_mem_directoryNames (h : s ∈ directoryNames path) :
    IsName s ∧ '/' ∉ s.toList := by
  obtain ⟨c, hc, hs⟩ := List.mem_filterMap.mp h
  cases c with
  | name t =>
    obtain rfl : t = s := Option.some.inj hs
    obtain ⟨hname, hmem⟩ := isName_of_mem_components (List.dropLast_subset _ hc)
    exact ⟨hname, Text.not_mem_of_mem_split hmem⟩
  | _ => cases hs

theorem isName_of_fileName? (h : fileName? path = some f) : IsName f ∧ '/' ∉ f.toList := by
  rw [fileName?] at h
  split at h
  · next s hlast =>
    obtain rfl := Option.some.inj h
    obtain ⟨hname, hmem⟩ := isName_of_mem_components (List.mem_of_getLast? hlast)
    exact ⟨hname, Text.not_mem_of_mem_split hmem⟩
  · cases h

theorem mem_stem {d : Char} (h : d ∈ (stem f).toList) : d ∈ f.toList := by
  rw [stem] at h
  split at h
  · exact h
  · exact h
  · next s _ hbefore =>
    rw [Text.eq_append_of_beforeLast? hbefore]
    simp [h]

theorem split_join_names {names : List String} (h : ∀ s ∈ names, '/' ∉ s.toList) (last : String) :
    Text.split '/' (Text.join "/" (names ++ [last])) = names ++ Text.split '/' last := by
  have hnames : names.flatMap (Text.split '/') = names := by
    rw [List.flatMap_congr fun s hs => Text.split_of_not_mem (h s hs), ← List.map_eq_flatMap,
      List.map_id']
  rw [show "/" = '/'.toString from rfl, Text.split_join (by simp), List.flatMap_append, hnames,
    List.flatMap_singleton]

/-! ### Names of a path -/

/-- The segments of a path that are names. -/
def names (path : String) : List String := (Text.split '/' path).filter (IsName ·)

/-- Below where it begins, a path that does not lead up leads through its names. -/
theorem filterMap_ofSegment?_eq (h : ".." ∉ Text.split '/' path) :
    (Text.split '/' path).filterMap ofSegment? = (names path).map .name := by
  rw [names]
  generalize Text.split '/' path = segments at h
  induction segments with
  | nil => rfl
  | cons s segments ih =>
    rw [List.mem_cons, not_or] at h
    rcases ofSegment?_cases s with hname | hdots | ⟨hname, hnone⟩
    · rw [List.filterMap_cons_some (ofSegment?_of_isName hname), ih h.2,
        List.filter_cons_of_pos (by simpa using hname), List.map_cons]
    · exact absurd hdots.symm h.1
    · rw [List.filterMap_cons_none hnone, ih h.2, List.filter_cons_of_neg (by simpa using hname)]

/-- A path with a segment that is a name leads through it. -/
theorem names_ne_nil (h : s ∈ Text.split '/' path) (hs : IsName s) : names path ≠ [] :=
  List.ne_nil_of_mem (List.mem_filter.mpr ⟨h, decide_eq_true hs⟩)

theorem IsPlain.names_eq (h : IsPlain path) : names path = Text.split '/' path := by
  rw [names, List.filter_eq_self]
  exact fun s hs => decide_eq_true (h s hs)

/-- A path that is written plainly does not lead out of a directory. -/
theorem IsPlain.isInside (h : IsPlain path) : IsInside path := by
  refine ⟨?_, fun hparent => ?_⟩
  · obtain ⟨first, more, hsplit⟩ := List.exists_cons_of_ne_nil (Text.split_ne_nil '/' path)
    have hfirst := h first (hsplit ▸ List.mem_cons_self ..)
    exact isAbsolute_eq_false_of_head? (by rw [hsplit]; rfl) hfirst.1
  · exact (h ".." (parent_mem_components.mp hparent)).2.2 rfl

end Path

end TemplateLang
