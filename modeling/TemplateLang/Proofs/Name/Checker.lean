import TemplateLang.Proofs.Name.Repeated

/-! The check of repeated names, run again and again. Whatever a checker remembers from other runs,
a run gives the verdict that the tree has by the rule: it passes if every template may stand
where it is, and else is refused for the first that may not. -/

namespace TemplateLang

open TemplateLang.Tree (root)

namespace OverrideChecker

variable {t : Tree} {c : OverrideChecker} {v : View} {x : Except CompileError FirstTemplates}
  {y : Except CompileError Unit × OverrideChecker}

/-- A visit comes to the same as a fold: it leaves what the fold gives, or has the same error. -/
def Tells : Except CompileError FirstTemplates →
    Except CompileError Unit × OverrideChecker → Prop
  | .ok seen, y => y = (.ok (), ⟨seen⟩)
  | .error e, y => y.1 = .error e

theorem Tells.fst (h : Tells x y) : y.1 = outcome x := by
  cases x with
  | ok seen => rw [show y = (.ok (), ⟨seen⟩) from h, outcome_ok]
  | error e => exact h

theorem tells_meet (t : Tree) (c : OverrideChecker) (v : View) :
    Tells (t.checkOverride c.templates v) (meet t c v) := by
  rw [meet]
  cases t.checkOverride c.templates v <;> rfl

mutual

theorem tells_visit (t : Tree) : ∀ (v : View) (c : OverrideChecker),
    Tells ((v.nodesWhere NodeKind.holdsTemplates).foldlM t.checkOverride c.templates) (visit t c v)
  | .node ref serial kind children, c => by
    rw [View.nodesWhere, visit, List.foldlM_cons]
    by_cases hholds : kind.holdsTemplates
    · have hlevel : (View.node ref serial kind children).kind.level ≠ .template :=
        NodeKind.level_ne_of_holdsTemplates hholds
      rw [if_pos hholds, if_pos hholds, Tree.checkOverride_of_level_ne _ hlevel, ok_bind]
      exact tells_visitAll t children c
    · rw [if_neg hholds, if_neg hholds]
      have hmeet := tells_meet t c (.node ref serial kind children)
      cases hv : t.checkOverride c.templates (.node ref serial kind children) with
      | ok seen => rwa [hv] at hmeet
      | error e => rwa [hv] at hmeet

theorem tells_visitAll (t : Tree) : ∀ (vs : List View) (c : OverrideChecker),
    Tells ((View.listNodesWhere NodeKind.holdsTemplates vs).foldlM t.checkOverride c.templates)
      (visitAll t c vs)
  | [], c => by
    rw [View.listNodesWhere, visitAll]
    rfl
  | v :: rest, c => by
    have hv := tells_visit t v c
    rw [View.listNodesWhere, visitAll, List.foldlM_append]
    cases hfold : (v.nodesWhere NodeKind.holdsTemplates).foldlM t.checkOverride c.templates with
    | ok seen =>
      rw [hfold] at hv
      rw [show visit t c v = (.ok (), ⟨seen⟩) from hv]
      exact tells_visitAll t rest ⟨seen⟩
    | error e =>
      rw [hfold] at hv
      obtain ⟨c', hvisit⟩ : ∃ c', visit t c v = (.error e, c') := ⟨_, Prod.ext hv rfl⟩
      rw [hvisit]
      rfl

end

/-- A run forgets first, so that its verdict is that of the tree. -/
theorem exec_fst (c : OverrideChecker) (t : Tree) : (c.exec t).1 = t.checkOverrides := by
  rw [exec, (tells_visit t (t.view root) c.setup).fst, Tree.checkOverrides_eq_outcome]
  rfl

theorem runs_eq (c : OverrideChecker) (ts : List Tree) :
    c.runs ts = ts.map Tree.checkOverrides := by
  induction ts generalizing c with
  | nil => rfl
  | cons t ts ih => rw [runs, exec_fst, ih, List.map_cons]

end OverrideChecker

namespace Tree

variable {t : Tree}

/-- If all names are full, a file set passes exactly when every template is the first with its name
or an override, and is refused exactly for the first template that is not; if some name is not
full, it is refused for that name or for a template before. A checker that has run before
says the same. -/
theorem checkOverrides_exact (h : t.Consistent) (hw : t.WellShaped) :
    ((∀ n ∈ t.templates, t.HasFullName n) →
      (t.checkOverrides = .ok () ↔ ∀ n ∈ t.templates, t.Permitted n) ∧
      ∀ e, t.checkOverrides = .error e ↔ ∃ before n after, t.templates = before ++ n :: after ∧
        (∀ m ∈ before, t.Permitted m) ∧ ¬ t.Permitted n ∧ t.RepeatError n e) ∧
    ((∃ n ∈ t.templates, ¬ t.HasFullName n) →
      ∃ e before n after, t.checkOverrides = .error e ∧ t.templates = before ++ n :: after ∧
        (∀ m ∈ before, t.HasFullName m ∧ t.Permitted m) ∧
        ((∃ name isOverride autoescape, t.kind n = .template name isOverride autoescape ∧
            isPartialName name ∧ e = .partialTemplateName name) ∨
          t.RepeatError n e ∧ ∃ m ∈ after, ¬ t.HasFullName m)) ∧
    (∀ c : OverrideChecker, (c.exec t).1 = t.checkOverrides) ∧
    ∀ (c : OverrideChecker) (ts : List Tree), c.runs ts = ts.map checkOverrides := by
  refine ⟨fun hfull => ⟨?_, fun e => ?_⟩, fun ⟨p, hp, hpartial⟩ => ?_, fun c => c.exec_fst t,
    OverrideChecker.runs_eq⟩
  · rw [hw.checkOverrides_eq_ok_iff h]
    exact forall₂_congr fun n hn => and_iff_right (hfull n hn)
  · rw [hw.checkOverrides_eq_error_iff h]
    refine exists₃_congr fun before n after => and_congr_right fun hsplit => ?_
    have hn : t.HasFullName n := hfull n (by simp [hsplit])
    have hbefore : (∀ m ∈ before, t.HasFullName m ∧ t.Permitted m) ↔
        ∀ m ∈ before, t.Permitted m :=
      forall₂_congr fun m hm => and_iff_right (hfull m (by simp [hsplit, hm]))
    have hfault : ¬ ∃ name isOverride autoescape,
        t.kind n = .template name isOverride autoescape ∧ isPartialName name ∧
          e = .partialTemplateName name := by
      rintro ⟨name, isOverride, autoescape, hk, hname, -⟩
      rw [hn name isOverride autoescape hk] at hname
      cases hname
    rw [hbefore, or_iff_right hfault, and_iff_right_of_imp RepeatError.not_permitted]
  · cases hover : t.checkOverrides with
    | ok u => exact absurd ((hw.checkOverrides_eq_ok_iff h).mp hover p hp).1 hpartial
    | error e =>
      obtain ⟨before, n, after, hsplit, hbefore, hn⟩ :=
        (hw.checkOverrides_eq_error_iff h).mp hover
      refine ⟨e, before, n, after, rfl, hsplit, hbefore,
        hn.imp_right fun hr => ⟨hr, p, ?_, hpartial⟩⟩
      -- the name that is not full comes later, as all names up to `n` are full
      rw [hsplit, List.mem_append, List.mem_cons] at hp
      obtain hp | rfl | hp := hp
      · exact absurd (hbefore p hp).1 hpartial
      · exact absurd hr.hasFullName hpartial
      · exact hp

/-- A theme may override the first template of another file, but not without saying so. -/
def themedText : String :=
  "[[[\"a.tmpl\",\"app\",[[\"app.a\",false,true,[]],[\"app.b\",false,true,[]]]],"
    ++ "[\"b.tmpl\",\"app\",[[\"app.a\",true,true,[]],[\"app.b\",false,true,[]]]]]]"

def themed : Tree :=
  ⟨#[⟨0, .fileSet, none, [⟨1⟩, ⟨4⟩]⟩, ⟨1, .file "a.tmpl" "app", some root, [⟨2⟩, ⟨3⟩]⟩,
    ⟨2, .template "app.a" false true, some ⟨1⟩, []⟩,
    ⟨3, .template "app.b" false true, some ⟨1⟩, []⟩,
    ⟨4, .file "b.tmpl" "app", some root, [⟨5⟩, ⟨6⟩]⟩,
    ⟨5, .template "app.a" true true, some ⟨4⟩, []⟩,
    ⟨6, .template "app.b" false true, some ⟨4⟩, []⟩], 7⟩

theorem load_themedText : Tree.load 0 themedText = .ok themed := by decide +kernel

/-- The first template with a repeated name that is no override is refused, twice by one checker. -/
theorem checkOverrides_exact_themed : themed.Consistent ∧ themed.WellShaped ∧
    themed.checkOverrides = .error (.duplicateTemplate "app.b" "a.tmpl" "b.tmpl") ∧
    OverrideChecker.new.runs [themed, themed] =
      [.error (.duplicateTemplate "app.b" "a.tmpl" "b.tmpl"),
        .error (.duplicateTemplate "app.b" "a.tmpl" "b.tmpl")] := by
  have h := (loaded_of_load load_themedText).consistent
  have hw := wellShaped_of_load load_themedText
  obtain ⟨hfull, -, -, hruns⟩ := checkOverrides_exact h hw
  have htemplates : themed.templates = [⟨2⟩, ⟨3⟩, ⟨5⟩, ⟨6⟩] := by decide
  have hpass : ∀ n ∈ [⟨2⟩, ⟨3⟩, (⟨5⟩ : NodeRef)], themed.HasFullName n ∧ themed.Permitted n := by
    intro n hn
    have hmem : n ∈ themed.templates := by
      rw [htemplates]
      exact List.mem_append_left [⟨6⟩] hn
    have hall : ∀ n ∈ [⟨2⟩, ⟨3⟩, (⟨5⟩ : NodeRef)], themed.fault? n = none := by decide +kernel
    exact (fault?_eq_none_iff hmem).mp (hall n hn)
  have hrepeats : themed.Repeats "app.b" ⟨3⟩ ⟨6⟩ :=
    ⟨⟨true, by decide⟩, by decide, by decide, by decide⟩
  have herror : themed.RepeatError ⟨6⟩ (.duplicateTemplate "app.b" "a.tmpl" "b.tmpl") :=
    .otherFile hrepeats ⟨⟨1⟩, "app", by decide⟩ ⟨⟨4⟩, "app", by decide⟩ (by decide)
  have hnames : ∀ n ∈ themed.templates, themed.HasFullName n := by
    rw [htemplates, show [⟨2⟩, ⟨3⟩, ⟨5⟩, ⟨6⟩] = [⟨2⟩, ⟨3⟩, (⟨5⟩ : NodeRef)] ++ [⟨6⟩] from rfl]
    simp only [List.forall_mem_append, List.forall_mem_singleton]
    exact ⟨fun n hn => (hpass n hn).1, herror.hasFullName⟩
  have hover : themed.checkOverrides = .error (.duplicateTemplate "app.b" "a.tmpl" "b.tmpl") :=
    ((hfull hnames).2 _).mpr
      ⟨[⟨2⟩, ⟨3⟩, ⟨5⟩], ⟨6⟩, [], htemplates, fun n hn => (hpass n hn).2, herror.not_permitted,
        herror⟩
  refine ⟨h, hw, hover, ?_⟩
  rw [hruns, List.map_cons, List.map_singleton, hover]

end Tree

end TemplateLang
