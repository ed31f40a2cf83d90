import TemplateLang.Proofs.Json.Fields
import TemplateLang.Proofs.Number.Equality
import TemplateLang.Proofs.Number.Reading
import TemplateLang.Proofs.Value.Numbers

/-! Equality in templates. A text, a number and a truth value are compared by what is printed for
them: a number is read back from its text, so two numbers have the same text only when they are
equal, and no number is printed like a truth value. All other values are compared by structure.
So equality is symmetric and transitive, but for `nan`, which differs from itself and is still
written like a text. -/

namespace TemplateLang.Value

variable {m n : Number} {v w x : Value} {xs ys : List (String × Value)}

/-! ### Equality of structure -/

mutual

theorem same_comm : ∀ v w : Value, v.same w = w.same v
  | .null, w => by cases w <;> rfl
  | .string s, w => by cases w <;> simp [same, eq_comm]
  | .number n, w => by cases w <;> simp [same, Number.equals_comm n]
  | .boolean b, w => by cases w <;> simp [same, eq_comm]
  | .array items, w => by
    cases w with
    | array others => rw [same, same, sameItems_comm items others]
    | _ => rfl
  | .object fields, w => by
    cases w with
    | object others => rw [same, same, sameFields_comm fields others]
    | _ => rfl

theorem sameItems_comm : ∀ items others : List Value,
    sameItems items others = sameItems others items
  | [], [] => rfl
  | [], _ :: _ => rfl
  | _ :: _, [] => rfl
  | item :: items, other :: others => by
    rw [sameItems, sameItems, same_comm item other, sameItems_comm items others]

theorem sameFields_comm : ∀ fields others : List (String × Value),
    sameFields fields others = sameFields others fields
  | [], [] => rfl
  | [], _ :: _ => rfl
  | _ :: _, [] => rfl
  | (name, value) :: fields, (name', value') :: others => by
    rw [sameFields, sameFields, same_comm value value', sameFields_comm fields others]
    simp only [eq_comm (a := name)]

end

mutual

theorem same_trans : ∀ v w x : Value, v.same w → w.same x → v.same x
  | .null, w, x, h, h' => by
    cases w <;> simp only [same, Bool.false_eq_true] at h
    exact h'
  | .string s, w, x, h, h' => by
    cases w <;> simp only [same, Bool.false_eq_true, decide_eq_true_eq] at h
    rwa [h]
  | .boolean b, w, x, h, h' => by
    cases w <;> simp only [same, Bool.false_eq_true, decide_eq_true_eq] at h
    rwa [h]
  | .number n, w, x, h, h' => by
    cases w <;> cases x <;> simp only [same, Bool.false_eq_true] at h h' ⊢
    exact Number.equals_trans h h'
  | .array items, w, x, h, h' => by
    cases w <;> cases x <;> simp only [same, Bool.false_eq_true] at h h' ⊢
    exact sameItems_trans items _ _ h h'
  | .object fields, w, x, h, h' => by
    cases w <;> cases x <;> simp only [same, Bool.false_eq_true] at h h' ⊢
    exact sameFields_trans fields _ _ h h'

theorem sameItems_trans : ∀ xs ys zs : List Value,
    sameItems xs ys → sameItems ys zs → sameItems xs zs
  | [], [], _, _, h' => h'
  | x :: xs, y :: ys, z :: zs, h, h' => by
    simp only [sameItems, Bool.and_eq_true] at h h' ⊢
    exact ⟨same_trans x y z h.1 h'.1, sameItems_trans xs ys zs h.2 h'.2⟩

theorem sameFields_trans : ∀ xs ys zs : List (String × Value),
    sameFields xs ys → sameFields ys zs → sameFields xs zs
  | [], [], _, _, h' => h'
  | (name, x) :: xs, (name', y) :: ys, (name'', z) :: zs, h, h' => by
    simp only [sameFields, Bool.and_eq_true, decide_eq_true_eq] at h h' ⊢
    exact ⟨⟨h.1.1.trans h'.1.1, same_trans x y z h.1.2 h'.1.2⟩, sameFields_trans xs ys zs h.2 h'.2⟩

end

mutual

theorem same_self_iff : ∀ v : Value, v.same v ↔ .nan ∉ v.numbers
  | .null | .string _ | .boolean _ => by simp [same, numbers]
  | .number n => by
    rw [same, numbers, Number.equals_self_iff, List.mem_singleton]
    exact not_congr eq_comm
  | .array items => by rw [same, numbers, sameItems_self_iff items]
  | .object fields => by rw [same, numbers, sameFields_self_iff fields]

theorem sameItems_self_iff : ∀ items : List Value,
    sameItems items items ↔ .nan ∉ itemNumbers items
  | [] => by simp [sameItems, itemNumbers]
  | item :: rest => by
    simp only [sameItems, itemNumbers, Bool.and_eq_true, List.mem_append, not_or,
      same_self_iff item, sameItems_self_iff rest]

theorem sameFields_self_iff : ∀ fields : List (String × Value),
    sameFields fields fields ↔ .nan ∉ fieldNumbers fields
  | [] => by simp [sameFields, fieldNumbers]
  | (name, value) :: rest => by
    simp only [sameFields, fieldNumbers, decide_true, Bool.true_and, Bool.and_eq_true,
      List.mem_append, not_or, same_self_iff value, sameFields_self_iff rest]

end

/-- Fields of the same names are the same when each has an equal value on the other side. -/
theorem sameFields_iff (hy : Json.Ordered ys) (hnames : xs.map (·.1) = ys.map (·.1)) :
    sameFields xs ys ↔ ∀ f ∈ xs, ∃ y, (object ys).field? f.1 = some y ∧ f.2.same y := by
  induction xs generalizing ys with
  | nil =>
    obtain rfl : ys = [] := by simpa using hnames.symm
    simp [sameFields]
  | cons f xs ih =>
    cases ys with
    | nil => simp at hnames
    | cons g ys =>
      obtain ⟨hg, hys⟩ := List.pairwise_cons.mp hy
      obtain ⟨hname, hnames⟩ := List.cons.inj hnames
      have hlater : ∀ h ∈ xs, (object (g :: ys)).field? h.1 = (object ys).field? h.1 := by
        intro h hh
        obtain ⟨k, hk, heq⟩ := List.mem_map.mp (hnames ▸ List.mem_map_of_mem hh)
        have hne : g.1 ≠ h.1 := fun hgh => (hg k hk).ne (hgh.trans heq.symm)
        simp [field?, hne]
      have hfirst : (object (g :: ys)).field? f.1 = some g.2 := by
        simp [field?, hname]
      rw [sameFields, Bool.and_eq_true, Bool.and_eq_true, ih hys hnames, List.forall_mem_cons,
        hfirst]
      have hrest : (∀ h ∈ xs, ∃ y, (object (g :: ys)).field? h.1 = some y ∧ h.2.same y) ↔
          ∀ h ∈ xs, ∃ y, (object ys).field? h.1 = some y ∧ h.2.same y :=
        forall₂_congr fun h hh => by rw [hlater h hh]
      rw [hrest]
      simp [hname]

theorem names_eq_of_sameFields (h : sameFields xs ys) : xs.map (·.1) = ys.map (·.1) := by
  induction xs generalizing ys with
  | nil =>
    cases ys with
    | nil => rfl
    | cons g ys => simp [sameFields] at h
  | cons f xs ih =>
    cases ys with
    | nil => simp [sameFields] at h
    | cons g ys =>
      simp only [sameFields, Bool.and_eq_true, decide_eq_true_eq] at h
      rw [List.map_cons, List.map_cons, h.1.1, ih h.2]

/-- Objects are the same when they have as many fields and each field of the one has an equal value
in the other. -/
theorem same_object_iff (hx : Json.Ordered xs) (hy : Json.Ordered ys) :
    (object xs).same (object ys) ↔
      xs.length = ys.length ∧ ∀ f ∈ xs, ∃ y, (object ys).field? f.1 = some y ∧ f.2.same y := by
  rw [same]
  constructor
  · intro h
    have hnames := names_eq_of_sameFields h
    exact ⟨by simpa using congrArg List.length hnames, (sameFields_iff hy hnames).mp h⟩
  · rintro ⟨hlength, hfound⟩
    refine (sameFields_iff hy (hx.names_eq hy hlength ?_)).mpr hfound
    intro name hname
    obtain ⟨f, hf, rfl⟩ := List.mem_map.mp hname
    obtain ⟨y, hy, -⟩ := hfound f hf
    obtain ⟨g, hg, -⟩ := Option.map_eq_some_iff.mp hy
    exact List.mem_map.mpr ⟨g, List.mem_of_find?_eq_some hg, by simpa using List.find?_some hg⟩

/-! ### Texts -/

/-- A number is read back from its text, but for the sign of zero. -/
theorem ofText?_numberText (n : Number) : ∃ n', Number.ofText? (numberText n).toList = some n' ∧
    (n'.equals n ∨ n' = .nan ∧ n = .nan) := by
  cases n with
  | nan => exact ⟨.nan, by decide +kernel, .inr ⟨rfl, rfl⟩⟩
  | infinite negative =>
    refine ⟨.infinite negative, ?_, .inl (by simp [Number.equals])⟩
    cases negative <;> decide +kernel
  | finite negative m =>
    refine ⟨_, Number.ofText?_sourceText negative m, .inl ?_⟩
    cases hm : decide (m.units = 0) <;> simp_all [Number.equals]

/-- Numbers are equal when they have the same text, but for `nan`. -/
theorem equals_iff_numberText :
    m.equals n ↔ numberText m = numberText n ∧ ¬ (m = .nan ∧ n = .nan) := by
  constructor
  · intro h
    refine ⟨?_, ?_⟩
    · cases m <;> cases n <;> simp only [Number.equals, Bool.false_eq_true] at h
      case infinite.infinite s t => rw [of_decide_eq_true h]
      case finite.finite s a t b =>
        have hs : (Number.finite s a).isFinite := rfl
        have ht : (Number.finite t b).isFinite := rfl
        exact (Number.sourceText_eq_iff hs ht).mpr h
    · rintro ⟨rfl, rfl⟩
      simp [Number.equals] at h
  · rintro ⟨htext, hnan⟩
    obtain ⟨m', hm', hm⟩ := ofText?_numberText m
    obtain ⟨n', hn', hn⟩ := ofText?_numberText n
    rw [htext, hn'] at hm'
    obtain rfl := Option.some.inj hm'
    rcases hm with hm | ⟨rfl, rfl⟩
    · rcases hn with hn | ⟨rfl, rfl⟩
      · exact Number.equals_trans (Number.equals_comm _ _ ▸ hm) hn
      · simp [Number.equals] at hm
    · rcases hn with hn | ⟨-, rfl⟩
      · simp [Number.equals] at hn
      · exact absurd ⟨rfl, rfl⟩ hnan

/-- No number is written like a truth value. -/
theorem text_number_ne_text_boolean (n : Number) (b : Bool) :
    (number n).text ≠ (boolean b).text := by
  intro h
  obtain ⟨n', hn', -⟩ := ofText?_numberText n
  rw [text] at h
  rw [h] at hn'
  have hnone : Number.ofText? (boolean b).text.toList = none := by
    cases b <;> decide +kernel
  cases hnone.symm.trans hn'

/-! ### Equality in templates -/

/-- The values that are compared by their texts. -/
def isScalar : Value → Bool
  | .string _ | .number _ | .boolean _ => true
  | .null | .array _ | .object _ => false

theorem looseEq_iff_text (hv : v.isScalar) (hw : w.isScalar) :
    v.looseEq w ↔ v.text = w.text ∧ ¬ (v = .number .nan ∧ w = .number .nan) := by
  cases v <;> cases w <;> simp only [isScalar, Bool.false_eq_true] at hv hw
  case number.number m n =>
    rw [looseEq, equals_iff_numberText]
    simp [text]
  case number.boolean n b => simp [looseEq, same, text_number_ne_text_boolean]
  case boolean.number b n => simp [looseEq, same, (text_number_ne_text_boolean n b).symm]
  case boolean.boolean a b => cases a <;> cases b <;> simp [looseEq, same, text]
  case string.string s t => simp [looseEq, same, text]
  all_goals
    rw [looseEq, decide_eq_true_iff]
    simp [text, eq_comm]

theorem looseEq_of_not_scalar (h : ¬ v.isScalar) (w : Value) : v.looseEq w = v.same w := by
  cases v <;> simp [isScalar] at h <;> cases w <;> rfl

theorem looseEq_comm (v w : Value) : v.looseEq w = w.looseEq v := by
  have hsame := same_comm v w
  cases v <;> cases w <;> simp only [looseEq, hsame]
  case number.number m n => exact Number.equals_comm m n

theorem looseEq_self (v : Value) : v.looseEq v = v.same v := by
  cases v <;> rfl

/-- A scalar is equal to scalars only. -/
theorem isScalar_eq_of_looseEq (h : v.looseEq w) : v.isScalar = w.isScalar := by
  cases v <;> cases w <;> first | rfl | simp [looseEq, same] at h

/-- The one chain whose ends differ leads from `nan` over its text to `nan`. -/
theorem looseEq_trans (h : v.looseEq w) (h' : w.looseEq x)
    (hnan : ¬ (v = .number .nan ∧ x = .number .nan)) : v.looseEq x := by
  have hvw := isScalar_eq_of_looseEq h
  have hwx := isScalar_eq_of_looseEq h'
  by_cases hv : v.isScalar
  · have hw : w.isScalar := hvw ▸ hv
    have hx : x.isScalar := hwx ▸ hw
    rw [looseEq_iff_text hv hw] at h
    rw [looseEq_iff_text hw hx] at h'
    exact (looseEq_iff_text hv hx).mpr ⟨h.1.trans h'.1, hnan⟩
  · rw [looseEq_of_not_scalar hv] at h ⊢
    rw [looseEq_of_not_scalar (hvw ▸ hv)] at h'
    exact same_trans v w x h h'

/-- Equality in templates is an equivalence of the values without `nan`. It is symmetric on all
values, those that have `nan` somewhere are not equal to themselves, and it leads from one that has
none no further than to its equals. Objects are compared as maps, whatever order they are in. -/
theorem looseEq_equivalence :
    (∀ v w : Value, v.looseEq w = w.looseEq v) ∧
      (∀ v : Value, v.looseEq v ↔ .nan ∉ v.numbers) ∧
      (∀ v w x : Value, .nan ∉ v.numbers → v.looseEq w → w.looseEq x → v.looseEq x) ∧
      ∀ xs ys : List (String × Value), Json.Ordered xs → Json.Ordered ys →
        ((object xs).looseEq (object ys) ↔ xs.length = ys.length ∧
          ∀ f ∈ xs, ∃ y, (object ys).field? f.1 = some y ∧ f.2.same y) := by
  refine ⟨looseEq_comm, fun v => ?_, fun v w x hv h h' => looseEq_trans h h' ?_, fun xs ys => ?_⟩
  · rw [looseEq_self, same_self_iff]
  · rintro ⟨rfl, -⟩
    simp [numbers] at hv
  · exact same_object_iff

/-- Both zeros are equal to the text that both are written with, and to one another. -/
theorem looseEq_equivalence_zeros :
    .nan ∉ (number (.finite true .zero)).numbers ∧
      (number (.finite true .zero)).looseEq (string "0") ∧
      (string "0").looseEq (number .zero) ∧
      (number (.finite true .zero)).looseEq (number .zero) ∧
      (object [("a", .null), ("b", number (.finite true .zero))]).looseEq
        (object [("a", .null), ("b", number .zero)]) := by
  obtain ⟨-, -, htrans, hobject⟩ := looseEq_equivalence
  have hnan : .nan ∉ (number (.finite true .zero)).numbers := by decide +kernel
  have htext : (number (.finite true .zero)).looseEq (string "0") := by decide +kernel
  have htext' : (string "0").looseEq (number .zero) := by decide +kernel
  refine ⟨hnan, htext, htext', htrans _ _ _ hnan htext htext', ?_⟩
  have hlt : "a" < "b" := by decide +kernel
  have hordered : ∀ v : Value, Json.Ordered [("a", .null), ("b", v)] := fun v =>
    List.pairwise_pair.mpr hlt
  refine (hobject _ _ (hordered _) (hordered _)).mpr ⟨rfl, fun f hf => ?_⟩
  simp only [List.mem_cons, List.not_mem_nil, or_false] at hf
  rcases hf with rfl | rfl
  · exact ⟨.null, rfl, rfl⟩
  · exact ⟨number .zero, rfl, by decide +kernel⟩

/-- The text of `nan` is equal to it, and yet it is not equal to itself. -/
example : (number .nan).looseEq (string "NaN") ∧ (string "NaN").looseEq (number .nan) ∧
    ¬ (number .nan).looseEq (number .nan) := by decide +kernel

end TemplateLang.Value
