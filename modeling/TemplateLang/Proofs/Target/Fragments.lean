import TemplateLang.Compile
import TemplateLang.Proofs.Escaping.EscapedText
import TemplateLang.Proofs.Number.SourceText
import TemplateLang.Proofs.Result
import TemplateLang.Proofs.Target.StatementText

/-! What holds of all fragments of a dialect. A property that the leaves have and that every way
of putting fragments together keeps holds of each expression, and of each printed value. In
both dialects values stand on one line and do not end like the call of a template. -/

namespace TemplateLang

variable {f g : Fragment} {s t : String} {names : BodyNames}

/-! ### Properties of fragments -/

/-- Paths are of letters, digits and dots. -/
def Expr.isNamed : Expr → Bool
  | .data path => path.all Text.isDotted
  | .not e => e.isNamed
  | .eq left right => left.isNamed && right.isNamed
  | _ => true

/-- The fragments of the dialect have the property. -/
structure Dialect.Keeps (d : Dialect) (P : Fragment → Prop) : Prop where
  data : ∀ path, (∀ s ∈ path, Text.isDotted s) → P (d.data path)
  literal : ∀ s, P (d.literal s)
  number : ∀ n : Number, P (.atom n.sourceText)
  bool : ∀ b, P (.atom (Expr.boolText b))
  negation : ∀ {f}, P f → P (d.negation f)
  equality : ∀ {f g}, P f → P g → P (d.equality f g)
  test : ∀ {f}, P f → P (d.test f)
  printed : ∀ {f}, P f → P (d.printed f)
  directive : ∀ {x write f args}, d.directive? x = some write → P f → (∀ g ∈ args, P g) →
    P (write f args)

namespace Dialect.Keeps

variable {d : Dialect} {P : Fragment → Prop} {node : ℕ}

theorem expr (h : d.Keeps P) {e : Expr} (he : e.isNamed) (hf : d.expr node e = .ok f) : P f := by
  induction e generalizing f with
  | data path =>
    obtain rfl := Except.ok.inj hf
    exact h.data path (List.all_eq_true.mp he)
  | str s =>
    obtain rfl := Except.ok.inj hf
    exact h.literal s
  | number n =>
    obtain rfl := Except.ok.inj hf
    exact h.number n
  | bool b =>
    obtain rfl := Except.ok.inj hf
    exact h.bool b
  | not e ih =>
    obtain ⟨g, hg, hf⟩ := bind_eq_ok.mp hf
    obtain rfl := Except.ok.inj hf
    exact h.negation (ih he hg)
  | eq left right ihLeft ihRight =>
    obtain ⟨hleft, hright⟩ := Bool.and_eq_true_iff.mp he
    obtain ⟨g, hg, hf⟩ := bind_eq_ok.mp hf
    obtain ⟨k, hk, hf⟩ := bind_eq_ok.mp hf
    obtain rfl := Except.ok.inj hf
    exact h.equality (ihLeft hleft hg) (ihRight hright hk)
  | bidi x => cases hf

theorem applyCall (h : d.Keeps P) {registry : Registry} {site : String} {call : DirectiveCall}
    (hargs : call.args.all Expr.isNamed) (hf : P f)
    (hg : d.applyCall registry node site f call = .ok g) : P g := by
  obtain ⟨x, -, hg⟩ := bind_eq_ok.mp hg
  obtain ⟨args, hmap, hg⟩ := bind_eq_ok.mp hg
  have hmem : ∀ g ∈ args, P g := fun g hg => by
    obtain ⟨e, he, hk⟩ := exists_of_mem_mapM hmap hg
    exact h.expr (List.all_eq_true.mp hargs e he) hk
  cases hw : d.directive? x with
  | none =>
    rw [hw] at hg
    cases hg
  | some write =>
    rw [hw] at hg
    obtain rfl := Except.ok.inj hg
    exact h.directive hw hf hmem

theorem foldlM (h : d.Keeps P) {registry : Registry} {site : String} {calls : List DirectiveCall}
    (hcalls : ∀ call ∈ calls, call.args.all Expr.isNamed) (hf : P f)
    (hg : calls.foldlM (d.applyCall registry node site) f = .ok g) : P g := by
  induction calls generalizing f with
  | nil =>
    obtain rfl := Except.ok.inj hg
    exact hf
  | cons call calls ih =>
    rw [List.foldlM_cons] at hg
    obtain ⟨next, hnext, hg⟩ := bind_eq_ok.mp hg
    exact ih (fun c hc => hcalls c (List.mem_cons_of_mem _ hc))
      (h.applyCall (hcalls call (List.mem_cons_self ..)) hf hnext) hg

theorem printValue (h : d.Keeps P) {registry : Registry} {e : Expr} {calls : List DirectiveCall}
    (he : e.isNamed) (hcalls : ∀ call ∈ calls, call.args.all Expr.isNamed)
    (hf : d.printValue registry node e calls = .ok f) : P f := by
  obtain ⟨value, hvalue, hf⟩ := bind_eq_ok.mp hf
  exact h.foldlM hcalls (h.printed (h.expr he hvalue)) hf

end Dialect.Keeps

/-! ### Values on one line -/

theorem all_join {p : Char → Bool} {separator : String} {parts : List String}
    (hs : separator.toList.all p) (h : ∀ s ∈ parts, s.toList.all p) :
    (Text.join separator parts).toList.all p := by
  cases parts with
  | nil => simp [Text.join, String.intercalate]
  | cons s parts =>
    have hrest : (parts.flatMap fun t => separator.toList ++ t.toList).all p := by
      rw [List.all_flatMap, List.all_eq_true]
      intro t ht
      rw [List.all_append, hs, h t (List.mem_cons_of_mem _ ht)]
      rfl
    rw [Text.toList_join_cons, List.all_append, h s (List.mem_cons_self ..), hrest]
    rfl

theorem onOneLine_iff_all : OnOneLine s ↔ s.toList.all (· != '\n') := by
  simp [OnOneLine, List.all_eq_true, List.forall_mem_ne']

theorem onOneLine_substitute {escape : Char → List Char} (h : ∀ c, '\n' ∉ escape c) (s : String) :
    OnOneLine (Text.substitute escape s) := by
  rw [OnOneLine, Escaping.toList_substitute, List.mem_flatMap]
  rintro ⟨c, -, hc⟩
  exact h c hc

theorem onOneLine_call {function : String} {args : List Fragment} (hf : OnOneLine function)
    (h : ∀ g ∈ args, OnOneLine g.text) : OnOneLine (Fragment.call function args).text := by
  have hargs : OnOneLine (Text.join ", " (args.map Fragment.text)) := by
    refine onOneLine_iff_all.mpr (all_join (by decide) fun s hs => ?_)
    obtain ⟨g, hg, rfl⟩ := List.mem_map.mp hs
    exact onOneLine_iff_all.mp (h g hg)
  simp only [Fragment.call, Fragment.atom, onOneLine_append]
  exact ⟨⟨⟨hf, by decide⟩, hargs⟩, by decide⟩

theorem onOneLine_textAtLeast (h : OnOneLine f.text) (least : ℕ) :
    OnOneLine (f.textAtLeast least) := by
  rw [Fragment.textAtLeast]
  split
  · simp only [onOneLine_append]
    exact ⟨⟨by decide, h⟩, by decide⟩
  · exact h

theorem onOneLine_sourceText (n : Number) : OnOneLine n.sourceText := fun h => by
  rcases Number.mem_sourceText h with h | h <;> revert h <;> decide

/-- The text is on one line and does not end with a blank and then the output, neither by itself nor
behind a blank. -/
structure BodyNames.Value (names : BodyNames) (f : Fragment) : Prop where
  onOneLine : OnOneLine f.text
  not_suffix : ¬ ' ' :: names.output.toList <:+ ' ' :: f.text.toList

/-- Behind a character that is not in it, a list ends in the same texts as behind a blank. -/
theorem not_suffix_append {p rest before : List Char} {c : Char} (hc : c ∉ p)
    (h : ¬ ' ' :: p <:+ ' ' :: rest) : ¬ ' ' :: p <:+ before ++ c :: rest := by
  intro hsuffix
  have hne : ' ' :: p ≠ c :: rest := fun heq => by
    cases heq
    exact h List.suffix_rfl
  rcases List.suffix_or_suffix_of_suffix hsuffix (List.suffix_append before (c :: rest)) with
    hs | hs
  · rcases List.suffix_cons_iff.mp hs with heq | hs
    · exact hne heq
    · exact h (hs.trans (List.suffix_cons ..))
  · rcases List.suffix_cons_iff.mp hs with heq | hs
    · exact hne heq.symm
    · exact hc (hs.mem (List.mem_cons_self ..))

namespace BodyNames

/-- A value is not the end of a call. -/
theorem Value.notCall (h : names.Value f) (hn : '(' ∉ names.output.toList) :
    names.NotCall (statementLine names.append f.text) := by
  rintro passesData ⟨before, hline⟩
  have hends : (before ++ '(' :: ((names.passed passesData).toList ++ [',']) ++
        ' ' :: names.output.toList) ++ [')', ';'] =
      (names.append.toList ++ '(' :: f.text.toList) ++ [')', ';'] := by
    simpa [callEnd, arguments, statementLine] using hline
  exact not_suffix_append hn h.not_suffix ⟨_, List.append_cancel_right hends⟩

/-- The last letter of the output is one of these. -/
def Final (names : BodyNames) : Prop :=
  ∃ c ∈ ['t', 'b'], names.output.toList.getLast? = some c

/-- It is enough that the text ends otherwise. -/
theorem value_of_getLast? (hn : names.Final) (hline : OnOneLine f.text) {c : Char}
    (h : f.text.toList.getLast? = some c) (hc : c ∉ ['t', 'b']) : names.Value f := by
  refine ⟨hline, ?_⟩
  rintro ⟨before, heq⟩
  obtain ⟨d, hd, hlast⟩ := hn
  have heq := congrArg List.getLast? heq
  rw [List.getLast?_append, List.getLast?_cons, List.getLast?_cons, hlast, h] at heq
  cases heq
  exact hc hd

theorem value_number (hn : names.Final) (n : Number) : names.Value (.atom n.sourceText) := by
  have hne : n.sourceText.toList ≠ [] := n.sourceText_ne_nil
  refine value_of_getLast? hn (onOneLine_sourceText n) (List.getLast?_eq_some_getLast hne)
    fun hmem => ?_
  simp only [List.mem_cons, List.not_mem_nil, or_false] at hmem
  rcases Number.mem_sourceText (List.getLast_mem hne) with h | h <;>
    rcases hmem with hc | hc <;> rw [hc] at h <;> revert h <;> decide

theorem value_bool (hn : names.Final) (b : Bool) : names.Value (.atom (Expr.boolText b)) := by
  cases b <;> exact value_of_getLast? hn (by decide) rfl (by decide)

theorem Value.textAtLeast (hn : names.Final) (h : names.Value f) (least : ℕ) :
    names.Value (.atom (f.textAtLeast least)) := by
  have hline := onOneLine_textAtLeast h.onOneLine least
  by_cases hlt : f.precedence < least
  · have htext : f.textAtLeast least = "(" ++ f.text ++ ")" := if_pos hlt
    refine value_of_getLast? hn hline ?_ (show ')' ∉ _ by decide)
    rw [Fragment.atom, htext, getLast?_append (by decide)]
    rfl
  · rw [Fragment.textAtLeast, if_neg hlt]
    exact ⟨h.onOneLine, h.not_suffix⟩

/-- A value behind other code, which ends with a character that is not in the output. -/
theorem Value.behind {c : Char} (h : names.Value (.atom t)) (hc : c ∉ names.output.toList)
    (hline : OnOneLine s) (hlast : s.toList.getLast? = some c) (precedence : ℕ) :
    names.Value ⟨s ++ t, precedence⟩ := by
  refine ⟨onOneLine_append.mpr ⟨hline, h.onOneLine⟩, ?_⟩
  obtain ⟨before, hbefore⟩ := List.getLast?_eq_some_iff.mp hlast
  have htext : ' ' :: (s ++ t).toList = ' ' :: before ++ c :: t.toList := by
    rw [String.toList_append, hbefore]
    simp
  rw [htext]
  exact not_suffix_append hc h.not_suffix

/-- A call of a function ends with a parenthesis. -/
theorem value_call (hn : names.Final) {function : String} {args : List Fragment}
    (hf : OnOneLine function) (hargs : ∀ g ∈ args, OnOneLine g.text) :
    names.Value (.call function args) :=
  value_of_getLast? hn (onOneLine_call hf hargs)
    (by rw [Fragment.call, Fragment.atom, getLast?_append (by decide)]; rfl)
    (show ')' ∉ _ by decide)

end BodyNames

/-! ### JavaScript -/

namespace JavaScript

def bodyNames : BodyNames := ⟨"output", "opt_data"⟩

theorem final_bodyNames : bodyNames.Final := ⟨'t', by decide, rfl⟩

theorem not_mem_jsSequence (c : Char) : '\n' ∉ Text.jsSequence c := by
  unfold Text.jsSequence
  split <;> simp_all [eq_comm]

theorem onOneLine_bareName (x : Directive) : OnOneLine x.bareName := by cases x <;> decide

theorem isDotted_path {path : List String} (h : ∀ s ∈ path, Text.isDotted s) :
    Text.isDotted ("opt_data." ++ Text.join "." path) := by
  rw [Text.isDotted_append]
  exact ⟨by decide, all_join (by decide) h⟩

theorem keeps_value (declares : Bool) : (dialect declares).Keeps bodyNames.Value where
  data path hpath := by
    have hdotted := isDotted_path hpath
    refine ⟨onOneLine_of_isDotted hdotted, fun hsuffix => ?_⟩
    -- there is no blank in the path, so the whole of it would be the output
    rcases List.suffix_cons_iff.mp hsuffix with heq | hsuffix
    · have hhead := congrArg (fun cs : List Char => cs[2]?) heq
      simp [dialect, Fragment.atom, bodyNames] at hhead
    · cases Text.isNameChar_of_mem hdotted (hsuffix.mem (List.mem_cons_self ..))
  literal s := by
    have hescaped := onOneLine_substitute not_mem_jsSequence s
    have hline : OnOneLine (literal s) := by
      simp only [literal, onOneLine_append]
      exact ⟨⟨by decide, hescaped⟩, by decide⟩
    exact BodyNames.value_of_getLast? final_bodyNames hline
      (BodyNames.getLast?_append (by decide)) (show '\'' ∉ _ by decide)
  number n := BodyNames.value_number final_bodyNames n
  bool b := BodyNames.value_bool final_bodyNames b
  negation h := (h.textAtLeast final_bodyNames notPrecedence).behind (show '!' ∉ _ by decide)
    (by decide) rfl _
  equality {f g} hf hg := by
    have hline : OnOneLine (f.textAtLeast equalityPrecedence ++ " == ") :=
      onOneLine_append.mpr ⟨onOneLine_textAtLeast hf.onOneLine _, by decide⟩
    exact (hg.textAtLeast final_bodyNames (equalityPrecedence + 1)).behind
      (show ' ' ∉ _ by decide) hline (BodyNames.getLast?_append (by decide)) _
  test h := h
  printed h := h
  directive {x write f args} hw hf hargs := by
    have hname : OnOneLine (Directive.jsHelper x.bareName) :=
      onOneLine_append.mpr ⟨by decide, onOneLine_bareName x⟩
    cases x with
    | noAutoescape =>
      cases hw
      exact hf
    | truncate =>
      cases hw
      refine BodyNames.value_call final_bodyNames hname fun g hg => ?_
      simp only [List.cons_append, List.nil_append, List.mem_cons, List.mem_append,
        Option.mem_toList, List.not_mem_nil, or_false] at hg
      rcases hg with rfl | hg | rfl
      · exact hf.onOneLine
      · exact (hargs g (List.mem_of_mem_head? hg)).onOneLine
      · cases h1 : args[1]? with
        | none => exact (BodyNames.value_bool final_bodyNames true).onOneLine
        | some k => exact (hargs k (List.mem_of_getElem? h1)).onOneLine
    | changeNewlineToBr | escapeHtml | escapeJsString | escapeUri =>
      cases hw
      exact BodyNames.value_call final_bodyNames hname (by simpa using hf.onOneLine)

end JavaScript

/-! ### Java -/

namespace Java

def bodyNames : BodyNames := ⟨"sb", "data"⟩

theorem final_bodyNames : bodyNames.Final := ⟨'b', by decide, rfl⟩

theorem not_mem_literalChar (c : Char) : '\n' ∉ literalChar c := by
  unfold literalChar
  split <;> simp_all [eq_comm]

theorem onOneLine_literal (s : String) : OnOneLine (literal s) := by
  simp only [literal, onOneLine_append]
  exact ⟨⟨by decide, onOneLine_substitute not_mem_literalChar s⟩, by decide⟩

theorem value_helperCall {name : String} {args : List Fragment} (hname : OnOneLine name)
    (hargs : ∀ g ∈ args, OnOneLine g.text) : bodyNames.Value (helperCall name args) :=
  BodyNames.value_call final_bodyNames (onOneLine_append.mpr ⟨by decide, hname⟩) hargs

theorem value_test (h : OnOneLine f.text) : bodyNames.Value (test f) :=
  value_helperCall (by decide) (by simpa using h)

theorem keeps_value (package : Option String) : (dialect package).Keeps bodyNames.Value where
  data path hpath := by
    have hdata : OnOneLine (Fragment.atom "data").text := by decide
    exact value_helperCall (by decide) (by simpa using ⟨hdata, onOneLine_literal _⟩)
  literal s := BodyNames.value_of_getLast? final_bodyNames (onOneLine_literal s)
    (BodyNames.getLast?_append (by decide)) (show '"' ∉ _ by decide)
  number n := BodyNames.value_number final_bodyNames n
  bool b := BodyNames.value_bool final_bodyNames b
  negation h := ((value_test h.onOneLine).textAtLeast final_bodyNames notPrecedence).behind
    (show '!' ∉ _ by decide) (by decide) rfl _
  equality hf hg := value_helperCall (by decide) (by simpa using ⟨hf.onOneLine, hg.onOneLine⟩)
  test h := value_test h.onOneLine
  printed h := value_helperCall (by decide) (by simpa using h.onOneLine)
  directive {x write f args} hw hf _ := by
    cases x with
    | noAutoescape =>
      cases hw
      exact hf
    | truncate => cases hw
    | changeNewlineToBr | escapeHtml | escapeJsString | escapeUri =>
      cases hw
      exact value_helperCall (by decide) (by simpa using hf.onOneLine)

end Java

end TemplateLang
