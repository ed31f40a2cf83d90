/-! Tables of values by lists of names. Lists that begin alike share their beginning, so that
looking one up takes a step for each of its names and not for each entry. -/

namespace TemplateLang

/-- Entries whose lists begin with a name, beside those that begin with others. The empty list
has no value. -/
inductive NameTree (α : Type) where
  | empty
  | node (name : String) (value : Option α) (below others : NameTree α)

namespace NameTree

variable {α : Type}

def find? : NameTree α → List String → Option α
  | .empty, _ => none
  | .node .., [] => none
  | .node name value below others, first :: rest =>
    if first = name then (if rest = [] then value else below.find? rest)
    else others.find? (first :: rest)

/-- The table with one entry. -/
def single (a : α) : List String → NameTree α
  | [] => .empty
  | first :: rest =>
    .node first (if rest = [] then some a else none) (single a rest) .empty

/-- The table with the value of a list set. -/
def insert (a : α) : NameTree α → List String → NameTree α
  | t, [] => t
  | .empty, first :: rest => single a (first :: rest)
  | .node name value below others, first :: rest =>
    if first = name then
      if rest = [] then .node name (some a) below others
      else .node name value (below.insert a rest) others
    else .node name value below (others.insert a (first :: rest))

/-- All entries, those of a list before those below it. -/
def toList : NameTree α → List (List String × α)
  | .empty => []
  | .node name value below others =>
    (value.map fun a => ([name], a)).toList
      ++ below.toList.map (fun (names, a) => (name :: names, a)) ++ others.toList

theorem find?_nil (t : NameTree α) : t.find? [] = none := by cases t <;> rfl

theorem find?_single (a : α) (names other : List String) :
    (single a names).find? other = if names ≠ [] ∧ other = names then some a else none := by
  induction names generalizing other with
  | nil => simp [single, find?]
  | cons first rest ih => cases other <;> grind [single, find?]

/-- Setting a value changes nothing else. -/
theorem find?_insert (t : NameTree α) (a : α) (names other : List String) :
    (t.insert a names).find? other =
      if names ≠ [] ∧ other = names then some a else t.find? other := by
  fun_induction insert a t names generalizing other with
  | case1 => simp
  | case2 first rest => simp [find?_single, find?]
  | case3 => cases other <;> grind [find?]
  | case4 => cases other <;> grind [find?]
  | case5 => cases other <;> grind [find?]

end NameTree

end TemplateLang
