import TemplateLang.Proofs.Directive.Calls
import TemplateLang.Render.Machine

/-! The truth of an ellipsis argument. Conditions and negations test the truth of a value itself;
a directive is given the value as JSON and tests that. Both tables say the same of every value
that JSON has. Of the numbers that it has not, and which become null there, `nan` is false in both,
while an infinite number is true as a value and false as null. -/

namespace TemplateLang

/-- Whether a value is one of the two infinite numbers. -/
def Value.isInfinite : Value → Bool
  | .number (.infinite _) => true
  | _ => false

namespace Directive

variable {v : Value}

/-- The truth of a value as JSON. -/
theorem isTruthy_toJson (v : Value) : isTruthy v.toJson = (v.truth && !v.isInfinite) := by
  cases v with
  | number n =>
    cases n with
    | nan => rfl
    | infinite negative => rfl
    | finite negative m => simp [Value.toJson, Value.numberToJson, isTruthy, Value.truth,
        Value.isInfinite, Number.isFinite, Number.isNaN, JsonNumber.toNumber]
  | string s => simp [Value.toJson, isTruthy, Value.truth, Value.isInfinite]
  | boolean b => cases b <;> rfl
  | null => rfl
  | array items => rfl
  | object fields => rfl

theorem isTruthy_toJson_eq_truth_iff (v : Value) :
    isTruthy v.toJson = v.truth ↔ v.isInfinite = false := by
  have htruth : v.isInfinite = true → v.truth = true := by
    cases v with
    | number n => cases n <;> simp [Value.isInfinite, Value.truth, Number.isZero, Number.isNaN]
    | _ => simp [Value.isInfinite]
  rw [isTruthy_toJson]
  cases hinf : v.isInfinite with
  | false => simp
  | true => simp [htruth hinf]

/-- An ellipsis argument matters by its truth alone. -/
theorem applyTruncate_congr {j j' : Json} (h : isTruthy j = isTruthy j') (text : String)
    (limit : Json) : applyTruncate text [limit, j] = applyTruncate text [limit, j'] := by
  simp [applyTruncate, h]

/-- Cut to six characters, eight show whether the ellipsis argument is true. -/
theorem applyTruncate_eight (j : Json) :
    applyTruncate "abcdefgh" [(Value.number (.ofNat 6)).toJson, j] =
      .ok (if isTruthy j then "abc..." else "abcdef") := by
  have hlimit : lengthArgument? (Value.number (.ofNat 6)).toJson = some 6 := by decide +kernel
  simp only [applyTruncate, hlimit, List.head?_cons, Option.map_some, Option.getD_some]
  cases isTruthy j <;> decide +kernel

end Directive

namespace RenderContext

variable {c : RenderContext} {d : Data} {e limit : Expr} {v : Value}

/-- A cut with both arguments given. -/
theorem applyCall_truncate (hreg : c.registry.contains .truncate) (serial : ℕ)
    (site text : String) :
    c.applyCall serial site d text ⟨Directive.truncate.name, [limit, e]⟩ =
      (do
        let room ← c.evaluate d limit
        let ellipsis ← c.evaluate d e
        (Directive.applyTruncate text [room.toJson, ellipsis.toJson]).mapError
          fun e => .runtime serial (.directive e)) := by
  have hresolve : c.registry.resolve ⟨Directive.truncate.name, [limit, e]⟩ = .ok .truncate := by
    rw [Registry.resolve, Registry.lookup_name, if_pos hreg]
    rfl
  rw [applyCall, hresolve]
  cases hl : c.evaluate d limit with
  | error error => simp [Except.mapError, Directive.interpreted?, hl]
  | ok room =>
    cases he : c.evaluate d e with
    | error error => simp [Except.mapError, Directive.interpreted?, hl, he]
    | ok ellipsis => simp [Except.mapError, Directive.interpreted?, hl, he]

/-- Negated twice, an expression has the truth of its value. -/
theorem evaluate_not_not (he : c.evaluate d e = .ok v) :
    c.evaluate d (.not (.not e)) = .ok (.boolean v.truth) := by
  unfold evaluate at he ⊢
  cases hv : e.eval c.scope d with
  | error error =>
    rw [hv] at he
    cases he
  | ok w =>
    rw [hv] at he
    obtain rfl := Except.ok.inj he
    simp [Expr.eval, hv, Except.mapError, Value.truth]

end RenderContext

namespace Directive

/-- Templates have one notion of truth, but for the infinite numbers: a value is true as an ellipsis
argument when it is true in a condition and false in a negation. So in a rendering the
argument may be negated twice, which leaves its truth and nothing else, exactly when its value
is not infinite. -/
theorem ellipsis_truth_iff (v : Value) :
    (isTruthy v.toJson = v.truth ↔ v.isInfinite = false) ∧
      ∀ (c : RenderContext) (d : Data) (e : Expr), c.registry.contains .truncate →
        c.evaluate d e = .ok v →
        ((∀ serial site text limit,
          c.applyCall serial site d text ⟨truncate.name, [limit, e]⟩ =
            c.applyCall serial site d text ⟨truncate.name, [limit, .not (.not e)]⟩) ↔
          v.isInfinite = false) := by
  refine ⟨isTruthy_toJson_eq_truth_iff v, fun c d e hreg he => ?_⟩
  have hnot := RenderContext.evaluate_not_not he
  rw [← isTruthy_toJson_eq_truth_iff]
  constructor
  · intro h
    have hcut := h 0 "" "abcdefgh" (.number (.ofNat 6))
    have hsix : c.evaluate d (.number (.ofNat 6)) = .ok (.number (.ofNat 6)) := rfl
    rw [RenderContext.applyCall_truncate hreg, RenderContext.applyCall_truncate hreg, he, hnot,
      hsix, ok_bind, ok_bind, ok_bind, ok_bind, applyTruncate_eight, applyTruncate_eight] at hcut
    have htexts := Except.ok.inj hcut
    have htruth : isTruthy (Value.boolean v.truth).toJson = v.truth := rfl
    rw [htruth] at htexts
    revert htexts
    cases isTruthy v.toJson <;> cases v.truth <;> decide
  · intro htruth serial site text limit
    rw [RenderContext.applyCall_truncate hreg, RenderContext.applyCall_truncate hreg, he, hnot]
    have hcut : ∀ limit, applyTruncate text [limit, v.toJson] =
        applyTruncate text [limit, (Value.boolean v.truth).toJson] :=
      applyTruncate_congr htruth text
    simp only [ok_bind, hcut]

/-! ### A cut that a flag ends with dots -/

def flagText : String :=
  "[[[\"a.tmpl\",\"app\",[[\".main\",false,true,[" ++
    "[\"if\",[[\x7b\"data\":[\"flag\"]\x7d,[[\"text\",\"yes \"]]]]]," ++
    "[\"print\",\x7b\"data\":[\"x\"]\x7d," ++
    "[[\"|truncate\",[\x7b\"number\":6\x7d,\x7b\"data\":[\"flag\"]\x7d]]]]]]]]]]"

def flagTree : Tree :=
  ⟨#[⟨0, .fileSet, none, [⟨1⟩]⟩, ⟨1, .file "a.tmpl" "app", some Tree.root, [⟨2⟩]⟩,
    ⟨2, .template ".main" false true, some ⟨1⟩, [⟨3⟩, ⟨6⟩]⟩, ⟨3, .cond, some ⟨2⟩, [⟨4⟩]⟩,
    ⟨4, .branch (.data ["flag"]), some ⟨3⟩, [⟨5⟩]⟩, ⟨5, .text "yes ", some ⟨4⟩, []⟩,
    ⟨6, .print (.data ["x"]) [⟨"|truncate", [.number (.ofNat 6), .data ["flag"]]⟩] none,
      some ⟨2⟩, []⟩], 7⟩

theorem load_flagText : Tree.load 0 flagText = .ok flagTree := by decide +kernel

def ofFlag : Renderer :=
  ⟨(flagTree.prepare .full (some .interpreter)).2, ⟨[("app.main", ⟨2⟩)]⟩, .full, 0, none⟩

theorem ofTree_flag : Renderer.ofTree flagTree .full 0 .keepLast = .ok ofFlag := by
  have hprepare : flagTree.prepare .full (some .interpreter) = (.ok (), ofFlag.tree) :=
    Prod.ext (by decide +kernel) rfl
  have hresolve : TemplateSet.resolve ofFlag.tree .keepLast = .ok ofFlag.templates := by
    decide +kernel
  exact Renderer.ofTree_eq hprepare hresolve 0

def flagData (flag : Value) : Data := ⟨[("flag", flag), ("x", .string "abcdefgh")]⟩

/-- The number that is none is false to both. -/
theorem ellipsis_truth_iff_nan :
    (ofFlag.context none).evaluate (flagData (.number .nan)) (.data ["flag"]) =
        .ok (.number .nan) ∧
      isTruthy (Value.number .nan).toJson = (Value.number .nan).truth ∧
      ∀ serial site text limit,
        (ofFlag.context none).applyCall serial site (flagData (.number .nan)) text
            ⟨truncate.name, [limit, .data ["flag"]]⟩ =
          (ofFlag.context none).applyCall serial site (flagData (.number .nan)) text
            ⟨truncate.name, [limit, .not (.not (.data ["flag"]))]⟩ := by
  obtain ⟨htruth, hcuts⟩ := ellipsis_truth_iff (.number .nan)
  have hflag : (ofFlag.context none).evaluate (flagData (.number .nan)) (.data ["flag"]) =
      .ok (.number .nan) := rfl
  exact ⟨hflag, htruth.mpr rfl, (hcuts _ _ _ rfl hflag).mpr rfl⟩

/-- An infinite flag is true in the condition, and yet the cut has no dots. -/
theorem not_all_truths_agree :
    Tree.load 0 flagText = .ok flagTree ∧
      Renderer.ofTree flagTree .full 0 .keepLast = .ok ofFlag ∧
      ofFlag.render "app.main" (flagData (.boolean true)) none = .ok "yes abc..." ∧
      ofFlag.render "app.main" (flagData (.number (.infinite false))) none = .ok "yes abcdef" ∧
      ¬ ∀ v : Value, isTruthy v.toJson = v.truth := by
  refine ⟨load_flagText, ofTree_flag, by decide +kernel, by decide +kernel, fun h => ?_⟩
  have hinfinite := h (.number (.infinite false))
  revert hinfinite
  decide

end Directive

end TemplateLang
