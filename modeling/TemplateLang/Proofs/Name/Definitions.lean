import Mathlib.Data.List.Nodup
import TemplateLang.Proofs.Escaping.Guarantee
import TemplateLang.Proofs.Name.Overrides

/-! The definitions of a tree and the set of them that is in effect. The set lists every name once,
in the order of first definitions, and gives for a name the first or the last definition as
the policy says. Preparation makes all names full, so that a prepared tree has such a set. -/

namespace TemplateLang

variable {t t' : Tree} {n : NodeRef} {name other : String} {registry : Registry}
  {backend : Option Backend} {policy : OverridePolicy}

/-- A template with its name. -/
def Tree.definition? (t : Tree) (n : NodeRef) : Option (String × NodeRef) :=
  match t.kind n with
  | .template name _ _ => some (name, n)
  | _ => none

/-- The templates that stand directly below files, with their names, in order of the source. -/
def Tree.definitions (t : Tree) : List (String × NodeRef) :=
  (t.files.flatMap t.children).filterMap t.definition?

/-- The definition of a name that counts. -/
def OverridePolicy.pick (name : String) (definitions : List (String × NodeRef)) :
    OverridePolicy → Option NodeRef
  | .keepFirst => (definitions.find? (·.1 = name)).map (·.2)
  | .keepLast => (definitions.reverse.find? (·.1 = name)).map (·.2)

theorem OverridePolicy.mem_of_pick {definitions : List (String × NodeRef)}
    (h : policy.pick name definitions = some n) : (name, n) ∈ definitions := by
  cases policy with
  | keepFirst =>
    obtain ⟨⟨other, m⟩, hfind, rfl⟩ := Option.map_eq_some_iff.mp h
    obtain rfl : other = name := by simpa using List.find?_some hfind
    exact List.mem_of_find?_eq_some hfind
  | keepLast =>
    obtain ⟨⟨other, m⟩, hfind, rfl⟩ := Option.map_eq_some_iff.mp h
    obtain rfl : other = name := by simpa using List.find?_some hfind
    exact List.mem_reverse.mp (List.mem_of_find?_eq_some hfind)

theorem Tree.definition?_eq_some {m : NodeRef} : t.definition? m = some (name, n) ↔
    m = n ∧ ∃ isOverride autoescape, t.kind n = .template name isOverride autoescape := by
  unfold definition?
  constructor
  · intro h
    split at h
    · next isOverride autoescape hk =>
      obtain ⟨rfl, rfl⟩ := Prod.mk.inj (Option.some.inj h)
      exact ⟨rfl, isOverride, autoescape, hk⟩
    · cases h
  · rintro ⟨rfl, isOverride, autoescape, hk⟩
    rw [hk]

theorem Tree.mem_filterMap_definition? {ns : List NodeRef} :
    (name, n) ∈ ns.filterMap t.definition? ↔
      n ∈ ns ∧ ∃ isOverride autoescape, t.kind n = .template name isOverride autoescape := by
  rw [List.mem_filterMap]
  simp only [definition?_eq_some, exists_eq_left, and_left_comm]

theorem Tree.mem_definitions : (name, n) ∈ t.definitions ↔ n ∈ t.files.flatMap t.children ∧
    ∃ isOverride autoescape, t.kind n = .template name isOverride autoescape :=
  mem_filterMap_definition?

namespace TemplateSet

variable {s : TemplateSet} {entries definitions : List (String × NodeRef)}

/-! ### Adding a definition -/

theorem names_replace (name : String) (n : NodeRef) (entries : List (String × NodeRef)) :
    (replace name n entries).map (·.1) = entries.map (·.1) := by
  induction entries with
  | nil => rfl
  | cons entry entries ih =>
    obtain ⟨other, old⟩ := entry
    rw [replace]
    split
    · rfl
    · rw [List.map_cons, List.map_cons, ih]

theorem find?_replace (h : name ∈ entries.map (·.1)) (n : NodeRef) :
    ((replace name n entries).find? (·.1 = other)).map (·.2) =
      if name = other then some n else (entries.find? (·.1 = other)).map (·.2) := by
  induction entries with
  | nil => simp at h
  | cons entry entries ih =>
    obtain ⟨first, old⟩ := entry
    rw [replace]
    by_cases hfirst : first = name
    · obtain rfl := hfirst
      rw [if_pos rfl, List.find?_cons, List.find?_cons]
      by_cases ho : first = other
      · simp [ho]
      · simp [ho]
    · have hmem : name ∈ entries.map (·.1) := by simpa [Ne.symm hfirst] using h
      rw [if_neg hfirst, List.find?_cons, List.find?_cons]
      by_cases ho : first = other
      · obtain rfl := ho
        simp [Ne.symm hfirst]
      · simpa [ho] using ih hmem

theorem get?_eq_none : s.get? name = none ↔ name ∉ s.names := by
  rw [get?, names, Option.map_eq_none_iff, List.find?_eq_none, List.mem_map]
  simp only [decide_eq_true_eq, not_exists, not_and]

theorem names_insert (policy : OverridePolicy) (s : TemplateSet) (name : String) (n : NodeRef) :
    (s.insert policy name n).names = if name ∈ s.names then s.names else s.names ++ [name] := by
  unfold insert
  cases hget : s.get? name with
  | none =>
    rw [if_neg (get?_eq_none.mp hget)]
    simp [names]
  | some old =>
    have hmem : name ∈ s.names := by
      by_contra hnot
      rw [get?_eq_none.mpr hnot] at hget
      cases hget
    rw [if_pos hmem]
    cases policy with
    | keepFirst => rfl
    | keepLast => exact names_replace name n s.entries

theorem get?_insert_keepFirst (s : TemplateSet) (name other : String) (n : NodeRef) :
    (s.insert .keepFirst name n).get? other =
      (s.get? other).or (if name = other then some n else none) := by
  unfold insert
  cases hget : s.get? name with
  | none =>
    rw [get?, List.find?_append, get?]
    cases s.entries.find? (·.1 = other) with
    | none =>
      by_cases ho : name = other
      · simp [ho]
      · simp [ho]
    | some entry => simp
  | some old =>
    by_cases ho : name = other
    · rw [← ho, hget]
      rfl
    · simp [ho]

theorem get?_insert_keepLast (s : TemplateSet) (name other : String) (n : NodeRef) :
    (s.insert .keepLast name n).get? other = if name = other then some n else s.get? other := by
  unfold insert
  cases hget : s.get? name with
  | none =>
    rw [get?, List.find?_append, get?]
    by_cases ho : name = other
    · obtain rfl := ho
      rw [get?, Option.map_eq_none_iff] at hget
      simp [hget]
    · simp [ho]
  | some old =>
    have hmem : name ∈ s.names := by
      by_contra hnot
      rw [get?_eq_none.mpr hnot] at hget
      cases hget
    exact find?_replace hmem n

/-! ### All definitions -/

/-- The set of the definitions that count. -/
def ofDefinitions (policy : OverridePolicy) (definitions : List (String × NodeRef)) :
    TemplateSet :=
  definitions.foldl (fun s e => s.insert policy e.1 e.2) ⟨[]⟩

theorem ofDefinitions_append (policy : OverridePolicy) (definitions : List (String × NodeRef))
    (e : String × NodeRef) :
    ofDefinitions policy (definitions ++ [e]) =
      (ofDefinitions policy definitions).insert policy e.1 e.2 := by
  rw [ofDefinitions, List.foldl_append]
  rfl

theorem mem_names_ofDefinitions :
    name ∈ (ofDefinitions policy definitions).names ↔ name ∈ definitions.map (·.1) := by
  induction definitions using List.reverseRecOn with
  | nil => rfl
  | append_singleton definitions e ih =>
    rw [ofDefinitions_append, names_insert, List.map_append, List.mem_append, ← ih]
    split_ifs with hmem
    · simp only [List.map_cons, List.map_nil, List.mem_singleton, iff_self_or]
      rintro rfl
      exact hmem
    · simp

/-- The names stand in the order of first definitions. -/
theorem names_ofDefinitions (policy : OverridePolicy) (definitions : List (String × NodeRef)) :
    (ofDefinitions policy definitions).names = (definitions.map (·.1)).eraseDups := by
  induction definitions using List.reverseRecOn with
  | nil => rfl
  | append_singleton definitions e ih =>
    have hmem : e.1 ∈ (ofDefinitions policy definitions).names ↔ e.1 ∈ definitions.map (·.1) :=
      mem_names_ofDefinitions
    rw [ofDefinitions_append, names_insert, ih, List.map_append, List.map_singleton,
      List.eraseDups_append]
    by_cases he : e.1 ∈ definitions.map (·.1)
    · rw [if_pos (by rwa [← ih, hmem])]
      simp [List.removeAll, he]
    · rw [if_neg (by rwa [← ih, hmem])]
      simp [List.removeAll, he, List.eraseDups_cons]

theorem nodup_names_ofDefinitions (policy : OverridePolicy)
    (definitions : List (String × NodeRef)) : (ofDefinitions policy definitions).names.Nodup := by
  induction definitions using List.reverseRecOn with
  | nil => exact List.nodup_nil
  | append_singleton definitions e ih =>
    rw [ofDefinitions_append, names_insert]
    split_ifs with hmem
    · exact ih
    · exact List.concat_eq_append ▸ ih.concat hmem

/-- The definition of a name is the first or the last, as the policy says. -/
theorem get?_ofDefinitions (policy : OverridePolicy) (definitions : List (String × NodeRef))
    (name : String) :
    (ofDefinitions policy definitions).get? name = policy.pick name definitions := by
  induction definitions using List.reverseRecOn with
  | nil => cases policy <;> rfl
  | append_singleton definitions e ih =>
    rw [ofDefinitions_append]
    cases policy with
    | keepFirst =>
      rw [get?_insert_keepFirst, ih, OverridePolicy.pick, OverridePolicy.pick, List.find?_append]
      cases definitions.find? (·.1 = name) with
      | none => by_cases he : e.1 = name <;> simp [he]
      | some first => simp
    | keepLast =>
      rw [get?_insert_keepLast, ih, OverridePolicy.pick, OverridePolicy.pick, List.reverse_append,
        List.reverse_singleton, List.singleton_append, List.find?_cons]
      by_cases he : e.1 = name <;> simp [he]

end TemplateSet

/-! ### Full names -/

namespace Tree

/-- Trees in which the templates below files have full names. -/
def Named (t : Tree) : Prop :=
  ∀ n ∈ t.files.flatMap t.children, ∀ name isOverride autoescape,
    t.kind n = .template name isOverride autoescape → isPartialName name = false

theorem SameTemplates.named (hs : SameTemplates t t') (h : t.Named) : t'.Named := by
  intro n hn name isOverride autoescape hk
  rw [hs.flatMap_eq] at hn
  rw [hs.kind n hn] at hk
  exact h n hn name isOverride autoescape hk

theorem SameTemplates.definitions_eq (hs : SameTemplates t t') :
    t'.definitions = t.definitions := by
  rw [definitions, definitions, hs.flatMap_eq]
  refine List.filterMap_congr fun n hn => ?_
  rw [definition?, definition?, hs.kind n hn]

theorem foldlM_insertNode_eq {ns : List NodeRef} (h : ∀ n ∈ ns, ∀ name isOverride autoescape,
      t.kind n = .template name isOverride autoescape → isPartialName name = false)
    (policy : OverridePolicy) (s : TemplateSet) :
    ns.foldlM (TemplateSet.insertNode t policy) s =
      .ok ((ns.filterMap t.definition?).foldl (fun s e => s.insert policy e.1 e.2) s) := by
  induction ns generalizing s with
  | nil => rfl
  | cons n ns ih =>
    have hrest := ih fun m hm => h m (List.mem_cons_of_mem _ hm)
    have hn := h n (List.mem_cons_self ..)
    rw [List.foldlM_cons, List.filterMap_cons, TemplateSet.insertNode, definition?]
    cases hk : t.kind n with
    | template name isOverride autoescape =>
      simp only [hn name isOverride autoescape hk, Bool.false_eq_true, if_false, ok_bind, hrest,
        List.foldl_cons]
    | _ => exact hrest s

theorem Named.resolve_eq (h : t.Named) (policy : OverridePolicy) :
    TemplateSet.resolve t policy = .ok (.ofDefinitions policy t.definitions) :=
  foldlM_insertNode_eq h policy ⟨[]⟩

/-- The set gives for a name a template below a file that has this name, which is full. -/
theorem Named.of_get? (h : t.Named)
    (hn : (TemplateSet.ofDefinitions policy t.definitions).get? name = some n) :
    isPartialName name = false ∧ n ∈ t.files.flatMap t.children ∧
      ∃ isOverride autoescape, t.kind n = .template name isOverride autoescape := by
  rw [TemplateSet.get?_ofDefinitions] at hn
  obtain ⟨hmem, isOverride, autoescape, hk⟩ := mem_definitions.mp (OverridePolicy.mem_of_pick hn)
  exact ⟨h n hmem name isOverride autoescape hk, hmem, isOverride, autoescape, hk⟩

/-- Templates that pass the rule on repeated names have full names. -/
theorem full_of_checkOverride {vs : List View} {seen seen' : FirstTemplates}
    (h : vs.foldlM t.checkOverride seen = .ok seen') {v : View} (hv : v ∈ vs)
    {isOverride autoescape : Bool} (hk : v.kind = .template name isOverride autoescape) :
    isPartialName name = false := by
  induction vs generalizing seen with
  | nil => simp at hv
  | cons w vs ih =>
    rw [List.foldlM_cons] at h
    obtain ⟨seen₁, hw, hrest⟩ := bind_eq_ok.mp h
    rcases List.mem_cons.mp hv with rfl | hv
    · rw [checkOverride, hk] at hw
      by_contra hpartial
      simp only [Bool.not_eq_false] at hpartial
      simp [hpartial] at hw
    · exact ih hrest hv

theorem checkOverrides_of_prepare (h : t.prepare registry backend = (.ok (), t')) :
    t.qualifyNames.checkOverrides = .ok () := by
  rw [prepare] at h
  cases hover : t.qualifyNames.checkOverrides with
  | error e => simp [hover] at h
  | ok u => rfl

theorem Formed.named_of_checkOverrides (h : t.Formed) (hover : t.checkOverrides = .ok ()) :
    t.Named := by
  intro n hn name isOverride autoescape hk
  obtain ⟨f, hf, hnf⟩ := List.mem_flatMap.mp hn
  have hmem : t.view n ∈ (t.view root).nodesWhere NodeKind.holdsTemplates := by
    rw [h.nodesWhere_holdsTemplates]
    refine List.mem_map_of_mem (List.mem_cons_of_mem _ (List.mem_flatMap.mpr ⟨f, hf, ?_⟩))
    exact List.mem_cons_of_mem _ hnf
  obtain ⟨seen, hseen, -⟩ := bind_eq_ok.mp hover
  exact full_of_checkOverride hseen hmem ((kind_view t n).trans hk)

/-- Where names are full, making them full changes no template. -/
theorem Formed.sameTemplates_qualifyNames (h : t.Formed) (hn : t.Named) :
    SameTemplates t t.qualifyNames := by
  have hcases := kind_mapKinds_cases t NodeKind.holdsNames NodeKind.qualifyName ""
  refine h.sameTemplates (sameShape_mapKinds t _ _ _) (fun f _ hlevel => ?_)
    fun n hmem _ hlevel => ?_
  · rcases hcases f with hk | ⟨ns, hk⟩
    · exact hk
    · rw [level] at hlevel
      rw [qualifyNames, hk]
      cases hkf : t.kind f with
      | file path ns => rfl
      | _ => simp_all [NodeKind.level]
  · rcases hcases n with hk | ⟨ns, hk⟩
    · exact hk
    · rw [level] at hlevel
      rw [qualifyNames, hk]
      cases hkn : t.kind n with
      | template name isOverride autoescape =>
        rw [NodeKind.qualifyName, qualify, hn n hmem name isOverride autoescape hkn]
        rfl
      | _ => simp_all [NodeKind.level]

/-- Behind the names, preparation leaves the templates as they are. -/
theorem Loaded.sameTemplates_prepare (h : t.Loaded)
    (hp : t.prepare registry backend = (.ok (), t')) : SameTemplates t.qualifyNames t' := by
  have hs : SameShape t t.qualifyNames := sameShape_mapKinds t _ _ _
  have hq := h.qualifyNames.toFormed
  have hkind : ∀ n, t.qualifyNames.Reaches root n →
      t.qualifyNames.level n = .file ∨ t.qualifyNames.level n = .template →
      t'.kind n = t.qualifyNames.kind n := by
    intro n hn hlevel
    have hhas := hs.has.mp (hn.has hq.consistent.has_root)
    have hkq := h.kind_qualifyNames hhas
    have hprint : (t.kind n).isPrint = false := by
      rw [level, hkq] at hlevel
      cases hk : t.kind n <;> simp_all [NodeKind.qualifyName, NodeKind.level, NodeKind.isPrint]
    rw [h.kind_prepare_of_not_isPrint hp hhas hprint, hkq]
  exact hq.sameTemplates (hs.symm.trans (sameShape_prepare hp))
    (fun f hf hl => hkind f hf (.inl hl)) fun n _ hn hl => hkind n hn (.inr hl)

/-- Preparation makes the names of all templates full. -/
theorem Loaded.named_prepare (h : t.Loaded) (hp : t.prepare registry backend = (.ok (), t')) :
    t'.Named :=
  (h.sameTemplates_prepare hp).named
    (h.qualifyNames.toFormed.named_of_checkOverrides (checkOverrides_of_prepare hp))

/-! ### A page -/

/-- Loading reads the characters of a text. -/
theorem load_of_toList (fresh : ℕ) {text : String} {chars : List Char} (h : text.toList = chars) :
    Tree.load fresh text =
      match (Json.Token.scan? chars.length chars []).bind fun tokens =>
        (Json.Raw.build? tokens .value []).bind FileSetDescription.ofRaw? with
      | none => .error .malformed
      | some d => (Tree.ofDescription fresh d).mapError .refused := by
  subst h
  unfold Tree.load FileSetDescription.ofText? Json.Raw.ofText? Json.Token.ofText?
  cases Json.Token.scan? text.toList.length text.toList [] with
  | none => rfl
  | some tokens => rfl

/-- A page for a user who may be logged in. Another file has its own text for the login. -/
def pageText : String := String.join
  ["[[[\"page.tmpl\",\"app\",[[\".page\",false,true,[[\"if\",[[\x7b\"data\":[\"user\"]\x7d,",
    "[[\"msg\",\"greeting\",\"\",[[\"text\",\"Hello \"],[\"print\",\x7b\"data\":[\"user\"]\x7d,",
    "[[\"|truncate\",[\x7b\"data\":[\"limit\"]\x7d,",
    "\x7b\"not\":\x7b\"bidi\":\"start_edge\"\x7d\x7d]]]]]]]]],[[\"call\",\".login\",true]]]]],",
    "[\".login\",false,true,[[\"text\",\"Log in\"]]]]],",
    "[\"theme.tmpl\",\"app\",[[\".login\",true,true,[[\"text\",\"Sign in\"]]]]]]]"]

def page : Tree :=
  ⟨#[⟨0, .fileSet, none, [⟨1⟩, ⟨12⟩]⟩, ⟨1, .file "page.tmpl" "app", some root, [⟨2⟩, ⟨10⟩]⟩,
    ⟨2, .template ".page" false true, some ⟨1⟩, [⟨3⟩]⟩, ⟨3, .cond, some ⟨2⟩, [⟨4⟩, ⟨8⟩]⟩,
    ⟨4, .branch (.data ["user"]), some ⟨3⟩, [⟨5⟩]⟩,
    ⟨5, .msg "greeting" "", some ⟨4⟩, [⟨6⟩, ⟨7⟩]⟩, ⟨6, .text "Hello ", some ⟨5⟩, []⟩,
    ⟨7, .print (.data ["user"]) [⟨"|truncate", [.data ["limit"], .not (.bidi .startEdge)]⟩] none,
      some ⟨5⟩, []⟩,
    ⟨8, .otherwise, some ⟨3⟩, [⟨9⟩]⟩, ⟨9, .call ".login" true, some ⟨8⟩, []⟩,
    ⟨10, .template ".login" false true, some ⟨1⟩, [⟨11⟩]⟩, ⟨11, .text "Log in", some ⟨10⟩, []⟩,
    ⟨12, .file "theme.tmpl" "app", some root, [⟨13⟩]⟩,
    ⟨13, .template ".login" true true, some ⟨12⟩, [⟨14⟩]⟩, ⟨14, .text "Sign in", some ⟨13⟩, []⟩],
    15⟩

/-- The page with full names and its escape. -/
def preparedPage : Tree := (page.prepare .full none).2

theorem load_pageText : Tree.load 0 pageText = .ok page :=
  (load_of_toList 0 String.toList_join).trans (by decide +kernel)

theorem prepare_page : page.prepare .full (some .jsSource) = (.ok (), preparedPage) := by
  decide +kernel

end Tree

end TemplateLang
