import TemplateLang.Directive.Check
import TemplateLang.Message.Insertion
import TemplateLang.Proofs.Tree.Moves
import TemplateLang.Proofs.Tree.Views

/-! The prints of a tree whose messages are replaced. The nodes that are made are texts and copies
of prints, so every print afterwards is what some node was before, even where a
replacement fails. -/

namespace TemplateLang

theorem View.isPrint_of_placeholder? {msg w : View} {name : String}
    (h : msg.placeholder? name = some w) : w ∈ msg.nodes.tail ∧ w.kind.isPrint := by
  refine ⟨List.mem_of_find?_eq_some h, ?_⟩
  have hw := List.find?_some h
  cases hk : w.kind with
  | print => rfl
  | _ => simp [hk, NodeKind.prints] at hw

namespace Tree

variable {t t' t'' : Tree} {n x : NodeRef}

theorem has_of_isPrint (h : (t.kind n).isPrint) : t.Has n := by
  by_contra hn
  rw [kind, node_of_not_has hn] at h
  cases h

/-- Every print of the second tree has the kind of a node of the first. -/
def PrintsFrom (t t' : Tree) : Prop := ∀ x, (t'.kind x).isPrint → ∃ y, t.kind y = t'.kind x

theorem PrintsFrom.refl (t : Tree) : PrintsFrom t t := fun x _ => ⟨x, rfl⟩

theorem PrintsFrom.trans (h : PrintsFrom t t') (h' : PrintsFrom t' t'') : PrintsFrom t t'' := by
  intro x hx
  obtain ⟨y, hy⟩ := h' x hx
  obtain ⟨z, hz⟩ := h y (hy ▸ hx)
  exact ⟨z, hz.trans hy⟩

theorem SameNodes.printsFrom (h : SameNodes t t') : PrintsFrom t t' :=
  fun x _ => ⟨x, (h.kind x).symm⟩

theorem kind_size (t : Tree) : t.kind ⟨t.nodes.size⟩ = .text "" := by
  rw [kind, node_size]
  rfl

/-- A new node is no print or a copy of one. -/
theorem printsFrom_create {k : NodeKind} (hk : k.isPrint → ∃ y, t.kind y = k) :
    PrintsFrom t (t.create k).2 := by
  intro x hx
  rw [kind_create] at hx ⊢
  split_ifs at hx ⊢
  · exact hk hx
  · exact ⟨x, rfl⟩

/-- Making a node changes no print. -/
theorem exists_kind_create {k k' : NodeKind} (hk' : k'.isPrint) (h : ∃ y, t.kind y = k') :
    ∃ y, (t.create k).2.kind y = k' := by
  obtain ⟨y, rfl⟩ := h
  refine ⟨y, ?_⟩
  rw [kind_create, if_neg]
  rintro rfl
  rw [kind_size] at hk'
  cases hk'

theorem printsFrom_partNodes (t : Tree) (msg : View) (key : String) (before : List NodeRef)
    (parts : List MessagePart)
    (hmsg : ∀ w ∈ msg.nodes, w.kind.isPrint → ∃ y, t.kind y = w.kind) :
    PrintsFrom t (t.partNodes msg key before parts).2 := by
  induction parts generalizing t before with
  | nil => exact .refl t
  | cons part parts ih =>
    have hcreate : ∀ k, ∀ w ∈ msg.nodes, w.kind.isPrint → ∃ y, (t.create k).2.kind y = w.kind :=
      fun k w hw hprint => exists_kind_create hprint (hmsg w hw hprint)
    cases part with
    | text content =>
      rw [partNodes]
      exact (printsFrom_create (by simp [NodeKind.isPrint])).trans (ih _ _ (hcreate _))
    | placeholder name =>
      rw [partNodes]
      split
      · exact .refl t
      · next w hw =>
        obtain ⟨hmem, hprint⟩ := View.isPrint_of_placeholder? hw
        split_ifs
        · refine (printsFrom_create fun _ => ?_).trans (ih _ _ (hcreate _))
          exact hmsg w (List.mem_of_mem_tail hmem) hprint
        · exact ih t _ hmsg

theorem printsFrom_insertMessage (t : Tree) (bundle : Option Bundle) (n : NodeRef) :
    PrintsFrom t (t.insertMessage bundle n).2 := by
  have hmsg : ∀ w ∈ (t.view n).nodes, w.kind.isPrint → ∃ y, t.kind y = w.kind :=
    fun w hw _ => ⟨w.ref, (kind_of_mem_nodes_view hw).symm⟩
  have hnodes : ∀ key, PrintsFrom t (t.messageNodes bundle (t.view n) key).2 := by
    intro key
    unfold messageNodes
    split
    · exact printsFrom_partNodes t _ key [] _ hmsg
    · exact .refl t
  unfold insertMessage
  split
  · next key _ _ =>
    have h := hnodes key
    split
    · next heq => rwa [heq] at h
    · next nodes t₁ heq =>
      rw [heq] at h
      exact h.trans (sameNodes_replaceWith t₁ n nodes).printsFrom
  · exact .refl t

theorem printsFrom_insertEach (t : Tree) (bundle : Option Bundle) (ns : List NodeRef) :
    PrintsFrom t (t.insertEach bundle ns).2 := by
  induction ns generalizing t with
  | nil => exact .refl t
  | cons n ns ih =>
    have h := printsFrom_insertMessage t bundle n
    rw [insertEach]
    split
    · next heq =>
      rw [heq] at h
      exact h.trans (ih _)
    · next heq => rwa [heq] at h

/-- Replacing messages makes no prints but copies. -/
theorem printsFrom_insertMessages (t : Tree) (bundle : Option Bundle) :
    PrintsFrom t (t.insertMessages bundle).2 :=
  printsFrom_insertEach t bundle (t.view root).outerMessages

end Tree

end TemplateLang
