import Mathlib.Data.List.Perm.Subperm
import Mathlib.Data.String.Basic
import TemplateLang.Json.Basic

/-! Fields as a map from names. Fields in increasing order of name have no name twice, so there is
one such list for each map, and collecting its fields one by one gives this list in whatever order
they come. -/

namespace TemplateLang.Json

variable {α : Type} {name : String} {value : α} {f : String × α}
  {fields visited : List (String × α)}

/-- Fields in increasing order of name, each name once. -/
def Ordered (fields : List (String × α)) : Prop := fields.Pairwise (·.1 < ·.1)

theorem Ordered.nodup (h : Ordered fields) : (fields.map (·.1)).Nodup := by
  rw [List.Nodup, List.pairwise_map]
  exact h.imp ne_of_lt

theorem Ordered.map {β : Type} (h : Ordered fields) (g : α → β) :
    Ordered (fields.map fun f => (f.1, g f.2)) := List.pairwise_map.mpr h

/-- Ordered fields are determined by which fields there are. -/
theorem Ordered.eq_of_perm (h : Ordered fields) (h' : Ordered visited)
    (hperm : visited.Perm fields) : visited = fields :=
  hperm.eq_of_pairwise (fun _ _ _ _ hlt hlt' => absurd hlt (not_lt_of_gt hlt')) h' h

/-- Of two ordered lists that are as long, one has the names of the other when it has no more. -/
theorem Ordered.names_eq (h : Ordered fields) {β : Type} {others : List (String × β)}
    (h' : Ordered others) (hlength : fields.length = others.length)
    (hsubset : fields.map (·.1) ⊆ others.map (·.1)) : fields.map (·.1) = others.map (·.1) := by
  have hnames : (fields.map (·.1)).Pairwise (· < ·) := List.pairwise_map.mpr h
  have hnames' : (others.map (·.1)).Pairwise (· < ·) := List.pairwise_map.mpr h'
  have hperm : (fields.map (·.1)).Perm (others.map (·.1)) :=
    (List.subperm_of_subset h.nodup hsubset).perm_of_length_le (by simp [hlength])
  exact hperm.eq_of_pairwise (fun _ _ _ _ hlt hlt' => absurd hlt (not_lt_of_gt hlt')) hnames hnames'

/-! ### Collecting fields -/

theorem mem_insertField (h : f ∈ insertField name value fields) :
    f = (name, value) ∨ f ∈ fields := by
  induction fields with
  | nil => exact .inl (List.mem_singleton.mp h)
  | cons g rest ih =>
    rw [insertField] at h
    split_ifs at h <;> grind

theorem ordered_insertField (name : String) (value : α) (h : Ordered fields) :
    Ordered (insertField name value fields) := by
  induction fields with
  | nil => exact List.pairwise_singleton ..
  | cons g rest ih =>
    obtain ⟨hg, hrest⟩ := List.pairwise_cons.mp h
    rw [insertField]
    split_ifs with heq hlt
    · exact List.pairwise_cons.mpr ⟨fun f hf => heq ▸ hg f hf, hrest⟩
    · refine List.pairwise_cons.mpr ⟨fun f hf => ?_, h⟩
      rcases List.mem_cons.mp hf with rfl | hf
      · exact hlt
      · exact hlt.trans (hg f hf)
    · refine List.pairwise_cons.mpr ⟨fun f hf => ?_, ih hrest⟩
      rcases mem_insertField hf with rfl | hf
      · exact lt_of_le_of_ne (not_lt.mp hlt) (Ne.symm heq)
      · exact hg f hf

/-- A field of a new name is one more. -/
theorem insertField_perm (value : α) (h : name ∉ fields.map (·.1)) :
    (insertField name value fields).Perm ((name, value) :: fields) := by
  induction fields with
  | nil => rfl
  | cons g rest ih =>
    simp only [List.map_cons, List.mem_cons, not_or] at h
    rw [insertField, if_neg h.1]
    split_ifs
    · rfl
    · exact ((ih h.2).cons g).trans (List.Perm.swap ..)

/-- Fields of different names, none of which is there yet, are all collected. -/
theorem foldl_insertField_perm (hnodup : (visited.map (·.1)).Nodup)
    (hnew : ∀ f ∈ visited, f.1 ∉ fields.map (·.1)) :
    (visited.foldl (fun sorted (name, value) => insertField name value sorted) fields).Perm
      (visited ++ fields) := by
  induction visited generalizing fields with
  | nil => rfl
  | cons f rest ih =>
    obtain ⟨hf, hrest⟩ := List.nodup_cons.mp hnodup
    have hperm := insertField_perm f.2 (hnew f (List.mem_cons_self ..))
    have hnew' : ∀ g ∈ rest, g.1 ∉ (insertField f.1 f.2 fields).map (·.1) := by
      intro g hg hmem
      rcases List.mem_cons.mp ((hperm.map _).mem_iff.mp hmem) with heq | hmem
      · exact hf (List.mem_map.mpr ⟨g, hg, heq⟩)
      · exact hnew g (List.mem_cons_of_mem f hg) hmem
    rw [List.foldl_cons]
    exact (ih hrest hnew').trans ((hperm.append_left rest).trans List.perm_middle)

theorem mem_sortFields : ∀ f ∈ sortFields fields, f ∈ fields := by
  refine List.foldlRecOn fields _
    (motive := fun sorted : List (String × α) => ∀ f ∈ sorted, f ∈ fields) (by simp) ?_
  intro sorted hsorted g hg f hf
  rcases mem_insertField hf with rfl | hf
  · exact hg
  · exact hsorted f hf

theorem ordered_sortFields (fields : List (String × α)) : Ordered (sortFields fields) :=
  List.foldlRecOn fields _ List.Pairwise.nil fun _ h f _ => ordered_insertField f.1 f.2 h

/-- Ordered fields are collected again in whatever order they are visited. -/
theorem sortFields_of_perm (h : Ordered fields) (hperm : visited.Perm fields) :
    sortFields visited = fields := by
  have hnodup : (visited.map (·.1)).Nodup := (hperm.map _).nodup_iff.mpr h.nodup
  have hsorted : (sortFields visited).Perm (visited ++ []) :=
    foldl_insertField_perm hnodup (by simp)
  rw [List.append_nil] at hsorted
  exact h.eq_of_perm (ordered_sortFields visited) (hsorted.trans hperm)

end TemplateLang.Json
