import TemplateLang.Proofs.Message.Localize

/-! The outer messages of a tree. They are the messages with no message above them, they lie
apart from each other, and every message is below one of them. -/

namespace TemplateLang.Tree

variable {t : Tree} {a b m n x : NodeRef}

/-- A message below `m` with no message between. -/
structure Outer (t : Tree) (m n : NodeRef) : Prop where
  reaches : t.Reaches m n
  isMessage : (t.kind n).isMessage
  first : ∀ a, t.Reaches m a → t.Reaches a n → (t.kind a).isMessage → a = n

/-- Neither node is above the other. -/
def Apart (t : Tree) (a b : NodeRef) : Prop := ¬ t.Reaches a b ∧ ¬ t.Reaches b a

namespace Consistent

theorem outerMessages_eq (h : t.Consistent) (m : NodeRef) :
    (t.view m).outerMessages =
      if (t.kind m).isMessage then [m]
      else (t.children m).flatMap fun c => (t.view c).outerMessages := by
  rw [h.view_eq m, View.outerMessages_node, List.flatMap_map]

theorem mem_outerMessages (h : t.Consistent) : n ∈ (t.view m).outerMessages ↔ Outer t m n := by
  induction m using h.children_induction with
  | step m ih =>
    rw [h.outerMessages_eq m]
    split_ifs with hm
    · rw [List.mem_singleton]
      constructor
      · rintro rfl
        exact ⟨.refl, hm, fun a ha ha' _ => h.reaches_antisymm ha' ha⟩
      · exact fun hn => (hn.first m .refl hn.reaches hm).symm
    · rw [List.mem_flatMap]
      constructor
      · rintro ⟨c, hc, hn⟩
        obtain ⟨hreach, hmsg, hfirst⟩ := (ih c hc).mp hn
        refine ⟨h.reaches_iff.mpr (.inr ⟨c, hc, hreach⟩), hmsg, fun a ha han hamsg => ?_⟩
        rcases h.reaches_iff.mp ha with rfl | ⟨d, hd, hda⟩
        · exact absurd hamsg hm
        · by_cases hcd : c = d
          · exact hfirst a (hcd ▸ hda) han hamsg
          · exact absurd (hda.trans han) (h.siblings_disjoint hc hd hcd hreach)
      · rintro ⟨hreach, hmsg, hfirst⟩
        rcases h.reaches_iff.mp hreach with rfl | ⟨c, hc, hcn⟩
        · exact absurd hmsg hm
        · refine ⟨c, hc, (ih c hc).mpr ⟨hcn, hmsg, fun a ha => hfirst a ?_⟩⟩
          exact h.reaches_iff.mpr (.inr ⟨c, hc, ha⟩)

theorem apart_outerMessages (h : t.Consistent) (m : NodeRef) :
    (t.view m).outerMessages.Pairwise t.Apart := by
  induction m using h.children_induction with
  | step m ih =>
    rw [h.outerMessages_eq m]
    split_ifs
    · exact List.pairwise_singleton ..
    · refine List.pairwise_flatMap.mpr ⟨ih, (h.nodup_children m).imp_of_mem ?_⟩
      intro c d hc hd hne a ha b hb
      have hca := (h.mem_outerMessages.mp ha).reaches
      have hdb := (h.mem_outerMessages.mp hb).reaches
      refine ⟨fun hab => ?_, fun hba => ?_⟩
      · exact h.siblings_disjoint hc hd hne (hca.trans hab) hdb
      · exact h.siblings_disjoint hc hd hne hca (hdb.trans hba)

end Consistent

end TemplateLang.Tree
