import Mathlib.Data.List.Forall2
import TemplateLang.Direction.Basic
import TemplateLang.Proofs.Text.Identifier
import TemplateLang.Proofs.Text.Segments

/-! The direction of a well-formed locale. A locale is a language, and behind it a script, a
region, variants, and the extensions that subtags of one character introduce. Of these the region
and the variants never matter, and neither does the way in which the locale is written. A script
with a known direction decides alone. Any other script is passed over, and the subtags of
extensions are searched for scripts as well, so that a script may be found where there is none. -/

namespace TemplateLang

namespace Direction

/-! ### Locales by their parts -/

def isLowerAlphanumeric (c : Char) : Bool := c.isLower || c.isDigit

/-- Whether a text has `least` to `most` characters, all of one kind. -/
def consistsOf (kind : Char → Bool) (least most : ℕ) (s : String) : Bool :=
  least ≤ s.length && s.length ≤ most && s.toList.all kind

/-- A subtag of one character and the subtags that it introduces. Behind an `x`, where the use is
private, these may be as short as one character. -/
structure Extension where
  key : Char
  subtags : List String
  key_kind : isLowerAlphanumeric key
  subtags_ne_nil : subtags ≠ []
  subtags_kind : ∀ s ∈ subtags, consistsOf isLowerAlphanumeric (if key = 'x' then 1 else 2) 8 s

/-- The parts of a well-formed locale, in lower case. -/
structure Locale where
  language : String
  script : Option String
  region : Option String
  variants : List String
  extensions : List Extension
  language_kind : consistsOf Char.isLower 2 8 language
  script_kind : ∀ s ∈ script, consistsOf Char.isLower 4 4 s
  region_kind : ∀ s ∈ region, consistsOf Char.isLower 2 2 s ∨ consistsOf Char.isDigit 3 3 s
  variants_kind : ∀ s ∈ variants, consistsOf isLowerAlphanumeric 5 8 s ∨
    consistsOf isLowerAlphanumeric 4 4 s ∧ s.toList.head?.any Char.isDigit

/-- How a character of a locale may be written: a letter in either case, a hyphen also as an
underscore. -/
def Spells (c d : Char) : Prop := c = '_' ∧ d = '-' ∨ c.toLower = d

instance : DecidableRel Spells := fun _ _ => inferInstanceAs (Decidable (_ ∨ _))

namespace Locale

/-- The subtags from the first one of a single character on. -/
def extras (l : Locale) : List String :=
  l.extensions.flatMap fun e => e.key.toString :: e.subtags

def subtags (l : Locale) : List String :=
  l.language :: (l.script.toList ++ l.region.toList ++ l.variants ++ l.extras)

/-- The locale in lower case, with hyphens. -/
def text (l : Locale) : String := Text.join "-" l.subtags

def WrittenAs (l : Locale) (written : String) : Prop :=
  List.Forall₂ Spells written.toList l.text.toList

/-- The direction of a script, if the locale has one and its direction is known. -/
def scriptDirection? (l : Locale) : Option Direction := l.script.bind ofScript?

/-- The direction of the first known script among the subtags of extensions. -/
def extrasDirection? (l : Locale) : Option Direction := l.extras.findSome? ofScript?

def direction (l : Locale) : Direction :=
  (l.scriptDirection?.or l.extrasDirection?).getD (ofLanguage l.language)

/-- The same script, or without one the same language. -/
def Agrees (l l' : Locale) : Prop :=
  l'.script = l.script ∧ (l.script = none → l'.language = l.language)

/-- Whether every locale of a class that agrees with this one has its direction, however the two
are written. -/
def DecidedAmong (among : Locale → Prop) (l : Locale) : Prop :=
  ∀ l', among l' → l.Agrees l' → ∀ written written', l.WrittenAs written →
    l'.WrittenAs written' → ofLocale (some written') = ofLocale (some written)

/-- No known script stands among the subtags of extensions. -/
def Quiet (l : Locale) : Prop := l.extrasDirection? = none

end Locale

/-! ### Characters and subtags -/

theorem toLower_of_isLowerAlphanumeric {c : Char} (h : isLowerAlphanumeric c) : c.toLower = c := by
  rw [isLowerAlphanumeric, Bool.or_eq_true, Text.isLower_iff, Text.isDigit_iff] at h
  apply Text.toLower_eq_self
  omega

theorem forall_of_consistsOf {kind kind' : Char → Bool} {least most : ℕ} {s : String}
    (hkind : ∀ c, kind c → kind' c) (h : consistsOf kind least most s) :
    ∀ c ∈ s.toList, kind' c := by
  simp only [consistsOf, Bool.and_eq_true, List.all_eq_true] at h
  exact fun c hc => hkind c (h.2 c hc)

theorem length_of_consistsOf {kind : Char → Bool} {least most : ℕ} {s : String}
    (h : consistsOf kind least most s) : least ≤ s.length ∧ s.length ≤ most := by
  simp only [consistsOf, Bool.and_eq_true, decide_eq_true_eq] at h
  exact h.1

/-- The known scripts have four characters, the first one no digit. -/
theorem shape_of_ofScript? {s : String} {d : Direction} (h : ofScript? s = some d) :
    s.length = 4 ∧ s.toList.head?.any Char.isDigit = false := by
  unfold ofScript? at h
  split_ifs at h with hltr hrtl
  · simp only [List.contains_eq_mem, List.mem_cons, List.not_mem_nil, or_false,
      decide_eq_true_eq] at hltr
    rcases hltr with rfl | rfl <;> decide
  · simp only [List.contains_eq_mem, List.mem_cons, List.not_mem_nil, or_false,
      decide_eq_true_eq] at hrtl
    rcases hrtl with rfl | rfl | rfl | rfl | rfl <;> decide

namespace Locale

variable {l : Locale} {written : String}

/-- The subtags are made of lower letters and digits. -/
theorem isLowerAlphanumeric_of_mem {s : String} (hs : s ∈ l.subtags) :
    ∀ c ∈ s.toList, isLowerAlphanumeric c := by
  have hlower : ∀ c, Char.isLower c → isLowerAlphanumeric c := by
    simp +contextual [isLowerAlphanumeric]
  have hdigit : ∀ c, Char.isDigit c → isLowerAlphanumeric c := by
    simp +contextual [isLowerAlphanumeric]
  simp only [subtags, extras, List.mem_cons, List.mem_append, Option.mem_toList,
    List.mem_flatMap, or_assoc] at hs
  rcases hs with rfl | hs | hs | hs | ⟨e, he, rfl | hs⟩
  · exact forall_of_consistsOf hlower l.language_kind
  · exact forall_of_consistsOf hlower (l.script_kind s hs)
  · rcases l.region_kind s hs with h | h
    · exact forall_of_consistsOf hlower h
    · exact forall_of_consistsOf hdigit h
  · rcases l.variants_kind s hs with h | h
    · exact forall_of_consistsOf (fun _ h => h) h
    · exact forall_of_consistsOf (fun _ h => h) h.1
  · intro c hc
    rw [Char.toString_eq_singleton, String.toList_singleton, List.mem_singleton] at hc
    exact hc ▸ e.key_kind
  · exact forall_of_consistsOf (fun _ h => h) (e.subtags_kind s hs)

/-- No region is taken for a script. -/
theorem ofScript?_region {s : String} (hs : s ∈ l.region) : ofScript? s = none := by
  rw [Option.eq_none_iff_forall_ne_some]
  intro d hd
  have hlength := (shape_of_ofScript? hd).1
  rcases l.region_kind s hs with h | h
  · have := length_of_consistsOf h
    omega
  · have := length_of_consistsOf h
    omega

/-- No variant is taken for a script. -/
theorem ofScript?_variant {s : String} (hs : s ∈ l.variants) : ofScript? s = none := by
  rw [Option.eq_none_iff_forall_ne_some]
  intro d hd
  obtain ⟨hlength, hhead⟩ := shape_of_ofScript? hd
  rcases l.variants_kind s hs with h | ⟨-, h⟩
  · have := length_of_consistsOf h
    omega
  · simp [hhead] at h

/-- The scan finds the script first, and then what stands in extensions. -/
theorem ofSubtags_subtags (l : Locale) : ofSubtags l.subtags = l.direction := by
  have hregion : l.region.toList.findSome? ofScript? = none :=
    List.findSome?_eq_none_iff.mpr fun s hs => ofScript?_region (Option.mem_toList.mp hs)
  have hvariants : l.variants.findSome? ofScript? = none :=
    List.findSome?_eq_none_iff.mpr fun s hs => ofScript?_variant hs
  have hscript : l.script.toList.findSome? ofScript? = l.scriptDirection? := by
    cases hl : l.script <;> simp [scriptDirection?, hl]
  simp only [ofSubtags, subtags, List.findSome?_append, hregion, hvariants, hscript, Option.or_none]
  rfl

/-! ### Written locales -/

theorem toList_text (l : Locale) (c : Char) (hc : c ∈ l.text.toList) :
    c = '-' ∨ isLowerAlphanumeric c := by
  rw [text, subtags, Text.toList_join_cons, List.mem_append, List.mem_flatMap] at hc
  rcases hc with hc | ⟨s, hs, hc⟩
  · exact .inr (isLowerAlphanumeric_of_mem (List.mem_cons_self ..) c hc)
  · rcases List.mem_append.mp hc with hc | hc
    · exact .inl (by simpa using hc)
    · exact .inr (isLowerAlphanumeric_of_mem (List.mem_cons_of_mem _ hs) c hc)

/-- A locale may be written in lower case, with hyphens. -/
theorem writtenAs_text (l : Locale) : l.WrittenAs l.text := by
  rw [WrittenAs, List.forall₂_same]
  intro c hc
  right
  rcases l.toList_text c hc with rfl | h
  · decide
  · exact toLower_of_isLowerAlphanumeric h

theorem subtags_text (l : Locale) : Text.split '-' l.text = l.subtags := by
  apply Text.split_join_of_not_mem
  · intro s hs hmem
    have := isLowerAlphanumeric_of_mem hs _ hmem
    revert this
    decide
  · exact List.cons_ne_nil _ _

/-- However a locale is written, it has the same subtags. -/
theorem subtags_of_writtenAs (h : l.WrittenAs written) :
    Direction.subtags written = l.subtags := by
  have hnormal : written.toList.map (fun c => (if c = '_' then '-' else c).toLower) =
      l.text.toList := by
    have hkind := l.toList_text
    unfold WrittenAs at h
    generalize written.toList = cs at h
    generalize l.text.toList = ds at h hkind
    induction h with
    | nil => rfl
    | @cons c d cs ds hcd _ ih =>
      rw [List.map_cons, ih fun c hc => hkind c (List.mem_cons_of_mem _ hc)]
      congr 1
      -- no subtag holds an underscore, so one that is written stands for a hyphen
      rcases hcd with ⟨rfl, rfl⟩ | hcd
      · rfl
      · rw [if_neg, hcd]
        rintro rfl
        have := hkind d (List.mem_cons_self ..)
        subst hcd
        revert this
        decide
  rw [Direction.subtags, hnormal, ← subtags_text, Text.split]

/-- The direction of a locale, however it is written. -/
theorem ofLocale_of_writtenAs (h : l.WrittenAs written) :
    ofLocale (some written) = l.direction := by
  rw [ofLocale, subtags_of_writtenAs h, ofSubtags_subtags]

theorem decidedAmong_iff (among : Locale → Prop) (l : Locale) :
    l.DecidedAmong among ↔ ∀ l', among l' → l.Agrees l' → l'.direction = l.direction := by
  constructor
  · intro h l' hl' hagrees
    have := h l' hl' hagrees _ _ l.writtenAs_text l'.writtenAs_text
    rwa [ofLocale_of_writtenAs l.writtenAs_text, ofLocale_of_writtenAs l'.writtenAs_text] at this
  · intro h l' hl' hagrees written written' hwritten hwritten'
    rw [ofLocale_of_writtenAs hwritten, ofLocale_of_writtenAs hwritten']
    exact h l' hl' hagrees

end Locale

/-! ### What decides -/

/-- A script and a language for each direction. -/
def scriptWith : Direction → String
  | .ltr => "latn"
  | .rtl => "arab"

def languageWith : Direction → String
  | .ltr => "en"
  | .rtl => "ar"

theorem ofLanguage_languageWith (d : Direction) : ofLanguage d.languageWith = d := by
  cases d <;> decide

/-- A subtag for private use that has the name of a script. -/
def privateScript (d : Direction) : Extension where
  key := 'x'
  subtags := [d.scriptWith]
  key_kind := by decide
  subtags_ne_nil := List.cons_ne_nil _ _
  subtags_kind := by cases d <;> decide

namespace Locale

variable {l : Locale} {written : String}

def withPrivate (l : Locale) (d : Direction) : Locale :=
  { l with extensions := [d.privateScript] }

/-- The script and the region in another language. -/
def withLanguage (l : Locale) (d : Direction) : Locale :=
  { l with
    language := d.languageWith
    extensions := []
    language_kind := by cases d <;> decide }

theorem direction_withPrivate (h : l.scriptDirection? = none) (d : Direction) :
    (l.withPrivate d).direction = d := by
  have hscript : (l.withPrivate d).scriptDirection? = none := h
  have hextras : (l.withPrivate d).extrasDirection? = some d := by
    cases d <;> rfl
  simp [direction, hscript, hextras]

theorem direction_withLanguage (h : l.scriptDirection? = none) (d : Direction) :
    (l.withLanguage d).direction = d := by
  have hscript : (l.withLanguage d).scriptDirection? = none := h
  have hextras : (l.withLanguage d).extrasDirection? = none := rfl
  simp only [direction, hscript, hextras, Option.or_none, Option.getD_none]
  exact ofLanguage_languageWith d

/-- Where locales of both directions agree with one, nothing has decided. -/
theorem not_decidedAmong {among : Locale → Prop} (withDirection : Direction → Locale)
    (hamong : ∀ d, among (withDirection d)) (hagrees : ∀ d, l.Agrees (withDirection d))
    (hdirection : ∀ d, (withDirection d).direction = d) : ¬ l.DecidedAmong among := by
  rw [decidedAmong_iff]
  intro h
  have hltr := h _ (hamong .ltr) (hagrees .ltr)
  have hrtl := h _ (hamong .rtl) (hagrees .rtl)
  rw [hdirection] at hltr hrtl
  cases hltr.trans hrtl.symm

theorem decidedAmong_all_iff (l : Locale) :
    l.DecidedAmong (fun _ => True) ↔ l.scriptDirection?.isSome := by
  cases hscript : l.scriptDirection? with
  | none =>
    simp only [Option.isSome_none, Bool.false_eq_true, iff_false]
    exact not_decidedAmong l.withPrivate (fun _ => trivial) (fun _ => ⟨rfl, fun _ => rfl⟩)
      (direction_withPrivate hscript)
  | some d =>
    simp only [Option.isSome_some, iff_true, decidedAmong_iff]
    intro l' _ hagrees
    have hscript' : l'.scriptDirection? = some d := by
      rw [scriptDirection?, hagrees.1, ← hscript, scriptDirection?]
    simp [direction, hscript, hscript']

theorem decidedAmong_quiet_iff (hquiet : l.Quiet) :
    l.DecidedAmong Quiet ↔ l.script = none ∨ l.scriptDirection?.isSome := by
  unfold Quiet at hquiet
  cases hscript : l.scriptDirection? with
  | none =>
    simp only [Option.isSome_none, Bool.false_eq_true, or_false]
    constructor
    · contrapose!
      intro hsome
      exact not_decidedAmong l.withLanguage (fun _ => rfl)
        (fun _ => ⟨rfl, fun hnone => absurd hnone hsome⟩) (direction_withLanguage hscript)
    · intro hnone
      rw [decidedAmong_iff]
      intro l' hquiet' hagrees
      have hscript' : l'.scriptDirection? = none := by
        rw [scriptDirection?, hagrees.1, hnone, Option.bind_none]
      unfold Quiet at hquiet'
      simp [direction, hscript, hscript', hquiet, hquiet', hagrees.2 hnone]
  | some d =>
    simp only [Option.isSome_some, or_true, iff_true]
    intro l' _ hagrees
    exact (decidedAmong_all_iff l).mpr (by simp [hscript]) l' trivial hagrees

end Locale

/-- The direction of a locale does not depend on how it is written, on its region or its variants.
Script, or else language, decide alone exactly where the script is a known one; and as long as no
extension holds the name of a known script, also where there is no script. -/
theorem locale_direction_iff (l : Locale) :
    (∀ written, l.WrittenAs written → ofLocale (some written) = l.direction) ∧
      (l.DecidedAmong (fun _ => True) ↔ l.scriptDirection?.isSome) ∧
      (l.Quiet → (l.DecidedAmong Locale.Quiet ↔ l.script = none ∨ l.scriptDirection?.isSome)) :=
  ⟨fun _ h => Locale.ofLocale_of_writtenAs h, l.decidedAmong_all_iff,
    Locale.decidedAmong_quiet_iff⟩

def urduInLatin : Locale where
  language := "ur"
  script := "latn"
  region := "pk"
  variants := []
  extensions := []
  language_kind := by decide
  script_kind := by decide
  region_kind := by decide
  variants_kind := by simp

theorem locale_direction_iff_urduInLatin :
    urduInLatin.WrittenAs "ur_LATN-Pk" ∧ ofLocale (some "ur_LATN-Pk") = .ltr ∧
      urduInLatin.Quiet ∧ urduInLatin.DecidedAmong Locale.Quiet := by
  have h := locale_direction_iff urduInLatin
  have hwritten : urduInLatin.WrittenAs "ur_LATN-Pk" := by
    unfold Locale.WrittenAs
    decide
  have hquiet : urduInLatin.Quiet := rfl
  exact ⟨hwritten, h.1 _ hwritten, hquiet, (h.2.2 hquiet).mpr (.inr rfl)⟩

/-! ### Scripts that do not decide -/

def english : Locale where
  language := "en"
  script := none
  region := none
  variants := []
  extensions := []
  language_kind := by decide
  script_kind := by simp
  region_kind := by simp
  variants_kind := by simp

/-- The name of a script for private use decides in the place of the language, and a language
decides in the place of a script that is not known. -/
theorem not_all_locales_decided :
    ofLocale (some "en") = .ltr ∧ ofLocale (some "en-x-arab") = .rtl ∧
      ofLocale (some "en-Grek") = .ltr ∧ ofLocale (some "ar-Grek") = .rtl ∧
      ¬ ∀ l : Locale, l.DecidedAmong fun _ => True := by
  refine ⟨by decide, by decide, by decide, by decide, ?_⟩
  intro h
  have hall := h english (english.withPrivate .rtl) trivial ⟨rfl, fun _ => rfl⟩ _ _
    english.writtenAs_text (english.withPrivate .rtl).writtenAs_text
  revert hall
  decide

end Direction

end TemplateLang
