import TemplateLang.Proofs.Target.Structure

/-! Objects of namespaces in generated JavaScript. A dotted name stands for an object inside others,
and a unit guards the objects that the namespace of its file names, from the outside in. What its
templates are assigned into depends on their own names, so these objects are declared exactly when
the names lie in the namespace. -/

namespace TemplateLang.JavaScript

variable {ns name object : String} {segments xs : List String}

/-! ### Objects -/

/-- The objects that segments name, from the outside in: one for each segment. -/
def objects (segments : List String) : List String :=
  segments.inits.tail.map (Text.join ".")

/-- The objects around what a dotted name stands for. -/
def owners (name : String) : List String := objects (Text.split '.' name).dropLast

/-- The line that declares an object unless it is there. -/
def guardOf (object : String) : String := guardLine (decide ('.' ∉ object.toList)) object

/-- The objects around what the name stands for are objects of the namespace. -/
def IsWithin (ns name : String) : Prop := (Text.split '.' name).dropLast <+: Text.split '.' ns

instance (ns name : String) : Decidable (IsWithin ns name) :=
  inferInstanceAs (Decidable (_ <+: _))

theorem mem_tail_inits {α : Type} {p l : List α} : p ∈ l.inits.tail ↔ p <+: l ∧ p ≠ [] := by
  cases l with
  | nil => simp
  | cons a l =>
    rw [List.inits_cons, List.tail_cons, List.mem_map]
    constructor
    · rintro ⟨q, hq, rfl⟩
      exact ⟨List.cons_prefix_cons.mpr ⟨rfl, (List.mem_inits q l).mp hq⟩, List.cons_ne_nil a q⟩
    · rintro ⟨hp, hne⟩
      obtain ⟨b, q, rfl⟩ := List.exists_cons_of_ne_nil hne
      obtain ⟨rfl, hq⟩ := List.cons_prefix_cons.mp hp
      exact ⟨q, (List.mem_inits q l).mpr hq, rfl⟩

/-- The object that a name stands for is one of those that segments name when its segments are the
first of them. -/
theorem mem_objects (h : ∀ s ∈ segments, '.' ∉ s.toList) :
    object ∈ objects segments ↔ Text.split '.' object <+: segments := by
  rw [objects, List.mem_map]
  constructor
  · rintro ⟨p, hp, rfl⟩
    obtain ⟨hfront, hne⟩ := mem_tail_inits.mp hp
    have hsplit := Text.split_join_of_not_mem (fun s hs => h s (hfront.subset hs)) hne
    exact hsplit.symm ▸ hfront
  · intro hfront
    exact ⟨_, mem_tail_inits.mpr ⟨hfront, Text.split_ne_nil '.' object⟩,
      Text.join_split '.' object⟩

theorem objects_concat (xs : List String) (s : String) :
    objects (xs ++ [s]) = objects xs ++ [Text.join "." (xs ++ [s])] := by
  have htail : (xs ++ [s]).inits.tail = xs.inits.tail ++ [xs ++ [s]] := by
    rw [List.inits_append]
    cases xs <;> simp
  rw [objects, htail, List.map_append]
  rfl

/-- The objects before one of the objects are those around it. -/
theorem owners_eq_of_objects (h : ∀ s ∈ segments, '.' ∉ s.toList) {before after : List String}
    (heq : objects segments = before ++ object :: after) : owners object = before := by
  induction segments using List.reverseRecOn generalizing after with
  | nil => simp [objects] at heq
  | append_singleton xs s ih =>
    rw [objects_concat] at heq
    rcases List.eq_nil_or_concat after with rfl | ⟨more, last, rfl⟩
    · obtain ⟨hbefore, hlast⟩ := List.append_inj' heq rfl
      obtain rfl := List.cons.inj hlast |>.1
      have hsplit : Text.split '.' (Text.join "." (xs ++ [s])) = xs ++ [s] :=
        Text.split_join_of_not_mem h (by simp)
      rw [owners, hsplit, List.dropLast_concat, hbefore]
    · rw [List.concat_eq_append, ← List.cons_append, ← List.append_assoc] at heq
      exact ih (fun t ht => h t (List.mem_append_left _ ht)) (List.append_inj' heq rfl).1

theorem not_mem_segment (name : String) : ∀ s ∈ Text.split '.' name, '.' ∉ s.toList :=
  fun _ hs => Text.not_mem_of_mem_split hs

/-- All objects around a name are objects of a namespace when the name lies in it. -/
theorem forall_owners_iff :
    (∀ object ∈ owners name, object ∈ objects (Text.split '.' ns)) ↔ IsWithin ns name := by
  have howner : ∀ object, object ∈ owners name ↔
      Text.split '.' object <+: (Text.split '.' name).dropLast := fun object =>
    mem_objects fun s hs => not_mem_segment _ s (List.dropLast_subset _ hs)
  simp only [howner, mem_objects (not_mem_segment ns)]
  constructor
  · intro h
    by_cases hnil : (Text.split '.' name).dropLast = []
    · rw [IsWithin, hnil]
      exact List.nil_prefix
    · have hsplit : Text.split '.' (Text.join "." (Text.split '.' name).dropLast) =
          (Text.split '.' name).dropLast := Text.split_join_of_not_mem
        (fun s hs => not_mem_segment _ s (List.dropLast_subset _ hs)) hnil
      have hwhole := h (Text.join "." (Text.split '.' name).dropLast)
      rw [hsplit] at hwhole
      exact hwhole List.prefix_rfl
  · exact fun h object hobject => hobject.trans h

/-! ### Guards -/

theorem tail_inits_cons (s : String) (rest : List String) :
    (s :: rest).inits.tail = [s] :: rest.inits.tail.map (s :: ·) := by
  cases rest <;> simp

theorem innerGuards_eq (hne : xs ≠ []) (rest : List String) :
    innerGuards (Text.join "." xs) rest =
      rest.inits.tail.map fun more => guardOf (Text.join "." (xs ++ more)) := by
  induction rest generalizing xs with
  | nil => rfl
  | cons s rest ih =>
    have hobject : Text.join "." xs ++ "." ++ s = Text.join "." (xs ++ [s]) := by
      rw [Text.join, Text.join, String.intercalate_append_of_ne_nil hne (List.cons_ne_nil s []),
        String.intercalate_singleton]
    have hguard : guardLine false (Text.join "." (xs ++ [s])) =
        guardOf (Text.join "." (xs ++ [s])) := by
      rw [guardOf, ← hobject]
      simp
    rw [innerGuards, hobject, hguard, ih (by simp), tail_inits_cons, List.map_cons, List.map_map]
    simp [Function.comp_def]

/-- A file guards the objects that its namespace names. -/
theorem guardLines_eq (ns : String) :
    guardLines ns = (objects (Text.split '.' ns)).map guardOf := by
  obtain ⟨s, rest, hsplit⟩ := List.exists_cons_of_ne_nil (Text.split_ne_nil '.' ns)
  have hs : '.' ∉ s.toList := not_mem_segment ns s (hsplit ▸ List.mem_cons_self ..)
  have hjoin : Text.join "." [s] = s := String.intercalate_singleton
  have hinner := innerGuards_eq (List.cons_ne_nil s []) rest
  rw [hjoin] at hinner
  rw [guardLines, hsplit, objects, tail_inits_cons, List.map_cons, List.map_cons, hjoin, guardOf,
    decide_eq_true hs, List.map_map, List.map_map]
  exact congrArg _ hinner

/-! ### Lines of units -/

variable {path content : String} {lines before after : List CodeLine}
  {assigned : List (String × List Statement)} {body : List Statement}

/-- The line that begins the assignment of a template. -/
def assignmentLine (name : String) : String := name ++ " = function(opt_data, opt_sb) \x7b"

/-- The lines of the assignment of a template. -/
def assignmentLines (name : String) (body : List Statement) : List CodeLine :=
  .blank :: .text 0 (assignmentLine name) ::
    .text 1 "var output = opt_sb || new stencil.StringBuilder();" ::
    (bodyLines bodyNames 1 body ++
      [.text 1 "return opt_sb ? '' : output.toString();", .text 0 "\x7d;"])

/-- The lines of a unit that assigns templates: those of every file, the guards of the namespace,
and one assignment behind the other. -/
def unitLines (path ns : String) (assigned : List (String × List Statement)) : List CodeLine :=
  (Dialect.header path).lines.toList ++
    ((objects (Text.split '.' ns)).map fun object => .text 0 (guardOf object)) ++
    assigned.flatMap fun a => assignmentLines a.1 a.2

/-- Wherever the line stands, the objects around the name have been declared. -/
def DeclaredBefore (lines : List CodeLine) (line : CodeLine) (name : String) : Prop :=
  ∀ before after, lines = before ++ line :: after →
    ∀ object ∈ owners name, .text 0 (guardOf object) ∈ before

section

variable {α : Type} {a : α} {l l' front back : List α}

/-- In two lists, one behind the other, what is not in the first is behind all of it. -/
theorem exists_front (h : l ++ l' = front ++ a :: back) (ha : a ∉ l) :
    ∃ more, front = l ++ more ∧ l' = more ++ a :: back := by
  rcases List.append_eq_append_iff.mp h with ⟨more, hfront, hl'⟩ | ⟨more, hl, hback⟩
  · exact ⟨more, hfront, hl'⟩
  · cases more with
    | nil => exact ⟨[], by simpa using hl.symm, hback.symm⟩
    | cons b more =>
      obtain ⟨rfl, -⟩ := List.cons.inj hback
      exact absurd (hl ▸ List.mem_append_right _ (List.mem_cons_self ..)) ha

theorem exists_back (h : l ++ l' = front ++ a :: back) (ha : a ∉ l') :
    ∃ more, l = front ++ a :: more := by
  rcases List.append_eq_append_iff.mp h with ⟨more, -, hl'⟩ | ⟨more, hl, hback⟩
  · exact absurd (hl' ▸ List.mem_append_right _ (List.mem_cons_self ..)) ha
  · cases more with
    | nil =>
      obtain rfl : a :: back = l' := hback
      exact absurd (List.mem_cons_self ..) ha
    | cons b more =>
      obtain ⟨rfl, -⟩ := List.cons.inj hback
      exact ⟨more, hl⟩

end

/-! ### Ends of lines -/

theorem getLast?_guardOf (object : String) : (guardOf object).toList.getLast? = some '\x7d' :=
  BodyNames.getLast?_append (by decide)

theorem getLast?_assignmentLine (name : String) :
    (assignmentLine name).toList.getLast? = some '\x7b' :=
  BodyNames.getLast?_append (by decide)

theorem getLast?_header (h : .text 0 content ∈ (Dialect.header path).lines.toList) :
    content.toList.getLast? = some '.' := by
  have hlines : (Dialect.header path).lines.toList =
      [.text 0 ("// This file was automatically generated from " ++ path ++ "."),
        .text 0 "// Please don't edit this file by hand.", .blank] := rfl
  rw [hlines] at h
  rcases List.mem_cons.mp h with h | h
  · rw [(CodeLine.text.inj h).2]
    exact BodyNames.getLast?_append (by decide)
  · rcases List.mem_cons.mp h with h | h
    · rw [(CodeLine.text.inj h).2]
      decide
    · simp at h

theorem mem_assignmentLines : .text 0 content ∈ assignmentLines name body ↔
    content = assignmentLine name ∨ content = "\x7d;" := by
  have hbody : CodeLine.text 0 content ∉ bodyLines bodyNames 1 body := fun h =>
    absurd (atLeast_bodyLines bodyNames 1 body _ h) (by simp [CodeLine.AtLeast])
  simp [assignmentLines, hbody]

/-- What stands behind the first list, moved by two characters, is another text. -/
theorem append_ne_of_shifted {l l' rest rest' : List Char} (h : l'.length = l.length + 2) :
    l ++ ' ' :: '=' :: '=' :: rest ≠ l' ++ ' ' :: rest' := by
  intro heq
  rcases List.append_eq_append_iff.mp heq with ⟨more, rfl, hrest⟩ | ⟨more, rfl, -⟩
  · obtain ⟨c, d, rfl⟩ := List.length_eq_two.mp (show more.length = 2 by simpa using h)
    simp at hrest
  · rw [List.length_append] at h
    omega

/-- A guard tells its object. With the same number of variables the objects have one length, and
otherwise one is two characters longer. -/
theorem guardLine_injective {outermost outermost' : Bool} {object' : String}
    (h : guardLine outermost object = guardLine outermost' object') : object = object' := by
  have hchars := congrArg String.toList h
  have hlength := congrArg List.length hchars
  rw [← String.toList_inj]
  cases outermost <;> cases outermost' <;> simp [guardLine] at hchars hlength
  · exact (List.append_inj hchars (by omega)).1
  · exact absurd hchars.symm (append_ne_of_shifted (by omega))
  · exact absurd hchars (append_ne_of_shifted (by omega))
  · exact (List.append_inj hchars (by omega)).1

/-! ### Declarations of a unit -/

theorem guard_not_mem_header (path object : String) :
    .text 0 (guardOf object) ∉ (Dialect.header path).lines.toList := by
  intro h
  have hlast := getLast?_header h
  rw [getLast?_guardOf] at hlast
  exact absurd hlast (by decide)

theorem guard_not_mem_assigned (object : String) (assigned : List (String × List Statement)) :
    .text 0 (guardOf object) ∉ assigned.flatMap fun a => assignmentLines a.1 a.2 := by
  intro h
  obtain ⟨a, -, ha⟩ := List.mem_flatMap.mp h
  have hlast := getLast?_guardOf object
  rcases mem_assignmentLines.mp ha with heq | heq
  · rw [heq, getLast?_assignmentLine] at hlast
    exact absurd hlast (by decide)
  · rw [heq] at hlast
    exact absurd hlast (by decide)

theorem guard_mem_guards {segments : List String} :
    .text 0 (guardOf object) ∈ segments.map (fun o => CodeLine.text 0 (guardOf o)) ↔
      object ∈ segments := by
  rw [List.mem_map]
  constructor
  · rintro ⟨o, ho, heq⟩
    rwa [← guardLine_injective (CodeLine.text.inj heq).2]
  · exact fun h => ⟨object, h, rfl⟩

/-- The objects that a unit guards are those that its namespace names. -/
theorem guard_mem_unitLines : .text 0 (guardOf object) ∈ unitLines path ns assigned ↔
    object ∈ objects (Text.split '.' ns) := by
  rw [unitLines, List.mem_append, List.mem_append, guard_mem_guards,
    or_iff_left (guard_not_mem_assigned object assigned),
    or_iff_right (guard_not_mem_header path object)]

/-- The guards of a unit stand in an order in which the objects around an object come first. -/
theorem declaredBefore_guard (path ns : String) (assigned : List (String × List Statement))
    (object : String) :
    DeclaredBefore (unitLines path ns assigned) (.text 0 (guardOf object)) object := by
  intro before after heq owner howner
  rw [unitLines, List.append_assoc] at heq
  obtain ⟨front, rfl, hfront⟩ := exists_front heq (guard_not_mem_header path object)
  obtain ⟨back, hback⟩ := exists_back hfront (guard_not_mem_assigned object assigned)
  obtain ⟨first, rest, hobjects, rfl, hrest⟩ := List.map_eq_append_iff.mp hback
  obtain ⟨o, more, rfl, ho, -⟩ := List.map_eq_cons_iff.mp hrest
  obtain rfl := guardLine_injective (CodeLine.text.inj ho).2
  rw [owners_eq_of_objects (not_mem_segment ns) hobjects] at howner
  exact List.mem_append_right _ (List.mem_map.mpr ⟨owner, howner, rfl⟩)

theorem assignment_not_mem_declarations (path ns name : String) :
    .text 0 (assignmentLine name) ∉ (Dialect.header path).lines.toList ++
      ((objects (Text.split '.' ns)).map fun object => .text 0 (guardOf object)) := by
  intro h
  have hlast := getLast?_assignmentLine name
  rcases List.mem_append.mp h with h | h
  · rw [getLast?_header h] at hlast
    exact absurd hlast (by decide)
  · obtain ⟨object, -, heq⟩ := List.mem_map.mp h
    rw [← (CodeLine.text.inj heq).2, getLast?_guardOf] at hlast
    exact absurd hlast (by decide)

/-- The templates that a unit assigns are those that it is given. -/
theorem assignment_mem_unitLines :
    .text 0 (assignmentLine name) ∈ unitLines path ns assigned ↔ name ∈ assigned.map (·.1) := by
  rw [unitLines, List.mem_append, or_iff_right (assignment_not_mem_declarations path ns name),
    List.mem_flatMap, List.mem_map]
  refine exists_congr fun a => and_congr_right fun _ => ?_
  rw [mem_assignmentLines]
  constructor
  · rintro (heq | heq)
    · exact (String.append_left_inj _).mp heq.symm
    · have hlast := getLast?_assignmentLine name
      rw [heq] at hlast
      exact absurd hlast (by decide)
  · rintro rfl
    exact .inl rfl

/-- The objects that a template is assigned into have been declared when its name lies in the
namespace, and only then. -/
theorem declaredBefore_assignment_iff (h : name ∈ assigned.map (·.1)) :
    DeclaredBefore (unitLines path ns assigned) (.text 0 (assignmentLine name)) name ↔
      IsWithin ns name := by
  rw [← forall_owners_iff]
  constructor
  · intro hdeclared object hobject
    obtain ⟨before, after, heq⟩ := List.append_of_mem (assignment_mem_unitLines.mpr h)
    have hguard := hdeclared before after heq object hobject
    exact guard_mem_unitLines.mp (heq ▸ List.mem_append_left _ hguard)
  · intro hwithin before after heq object hobject
    obtain ⟨front, rfl, -⟩ := exists_front heq (assignment_not_mem_declarations path ns name)
    exact List.mem_append_left _
      (List.mem_append_right _ (guard_mem_guards.mpr (hwithin object hobject)))

end TemplateLang.JavaScript
