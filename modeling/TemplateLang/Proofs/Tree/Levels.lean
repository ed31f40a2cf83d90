import TemplateLang.Proofs.Tree.Kinds

/-! Levels of nodes. Files stand below the root, templates below files, and bodies below
templates, branches and messages; the level of a kind says what may stand below it. Levels have
a depth, which grows on the way down until a body is reached. Within a conditional block the
first branch is one with a condition. -/

namespace TemplateLang

inductive Level where
  | fileSet
  | file
  | template
  | leaf
  | cond
  | branch
  | message
deriving DecidableEq

namespace Level

def all : List Level := [.fileSet, .file, .template, .leaf, .cond, .branch, .message]

theorem mem_all (l : Level) : l ∈ all := by cases l <;> decide

/-- What a body is made of. -/
def isItem : Level → Bool
  | .leaf | .cond | .message => true
  | _ => false

/-- Levels whose nodes own a body. -/
def ownsBody : Level → Bool
  | .template | .branch | .message => true
  | _ => false

/-- Whether a node of the second level may stand below one of the first. -/
def holds : Level → Level → Bool
  | .fileSet, l => l = .file
  | .file, l => l = .template
  | .cond, l => l = .branch
  | k, l => k.ownsBody && l.isItem

/-- How far below the root a level is; all nodes of bodies count alike. -/
def depth : Level → ℕ
  | .fileSet => 0
  | .file => 1
  | .template => 2
  | _ => 3

theorem depth_eq_of_holds {k l : Level} (h : k.holds l) : l.depth = min (k.depth + 1) 3 := by
  have hall : ∀ k ∈ all, ∀ l ∈ all, k.holds l → l.depth = min (k.depth + 1) 3 := by decide
  exact hall k (mem_all k) l (mem_all l) h

/-- Items stand below the nodes that own a body, and nowhere else. -/
theorem isItem_of_holds {k l : Level} (h : k.holds l) : l.isItem = k.ownsBody := by
  have hall : ∀ k ∈ all, ∀ l ∈ all, k.holds l → l.isItem = k.ownsBody := by decide
  exact hall k (mem_all k) l (mem_all l) h

theorem ownsBody_of_holds_message {k : Level} (h : k.holds .message) : k.ownsBody :=
  (isItem_of_holds h).symm

theorem eq_file_of_holds {k : Level} (h : k.holds .template) : k = .file := by
  cases k <;> first | rfl | cases h

theorem eq_fileSet_of_holds {k : Level} (h : k.holds .file) : k = .fileSet := by
  cases k <;> first | rfl | cases h

theorem holds_of_ownsBody {k l : Level} (hk : k.ownsBody) (hl : l.isItem) : k.holds l := by
  have hall : ∀ k ∈ all, ∀ l ∈ all, k.ownsBody → l.isItem → k.holds l := by decide
  exact hall k (mem_all k) l (mem_all l) hk hl

end Level

namespace NodeKind

def level : NodeKind → Level
  | .fileSet => .fileSet
  | .file .. => .file
  | .template .. => .template
  | .text _ | .print .. | .call .. => .leaf
  | .cond => .cond
  | .branch _ | .otherwise => .branch
  | .msg .. => .message

/-- Whether a node may come first in a conditional block. -/
def opensBlock : NodeKind → Bool
  | .branch _ => true
  | _ => false

theorem level_eq_template {k : NodeKind} :
    k.level = .template ↔ ∃ name isOverride autoescape, k = .template name isOverride autoescape := by
  cases k <;> simp [level]

theorem level_eq_file {k : NodeKind} : k.level = .file ↔ ∃ path ns, k = .file path ns := by
  cases k <;> simp [level]

theorem isContainer_of_holds {k : NodeKind} {l : Level} (h : k.level.holds l) : k.isContainer := by
  cases k with
  | text | print | call => simp [level, Level.holds, Level.ownsBody] at h
  | _ => rfl

end NodeKind

namespace Tree

variable {t t' : Tree} {n p x : NodeRef}

def level (t : Tree) (n : NodeRef) : Level := (t.kind n).level

/-- Trees with everything at a level where it may stand. -/
structure Leveled (t : Tree) : Prop where
  holds : ∀ n p, t.parent n = some p → (t.level p).holds (t.level n)
  level_root : t.level root = .fileSet

theorem Leveled.of_sameShape (h : t.Leveled) (hs : SameShape t t')
    (hl : ∀ x, t'.level x = t.level x) : t'.Leveled where
  holds n p hp := by
    rw [hl, hl]
    exact h.holds n p (hs.parent n ▸ hp)
  level_root := (hl root).trans h.level_root

/-- Below a node of level `leaf` nothing stands. -/
theorem Leveled.children_eq_nil (h : t.Leveled) (hc : t.Consistent)
    (hn : t.level n = .leaf) : t.children n = [] := by
  refine List.eq_nil_iff_forall_not_mem.mpr fun c hm => ?_
  have := h.holds c n ((hc.mem_children n c).mp hm)
  rw [hn] at this
  exact absurd this (by simp [Level.holds, Level.ownsBody])

/-- What lies below a node lies deeper, or in the same body. -/
theorem depth_le_of_holds
    (h : ∀ x q, t.Reaches n q → t.parent x = some q → (t.level q).holds (t.level x))
    (hx : t.Reaches n x) : x = n ∨ min ((t.level n).depth + 1) 3 ≤ (t.level x).depth := by
  induction hx with
  | refl => exact .inl rfl
  | @child q x hq hp ih =>
    have hdepth := Level.depth_eq_of_holds (h x q hq hp)
    rcases ih with rfl | ih
    · exact .inr hdepth.ge
    · right
      omega

theorem Leveled.depth_le_of_reaches (h : t.Leveled) (hx : t.Reaches n x) :
    x = n ∨ min ((t.level n).depth + 1) 3 ≤ (t.level x).depth :=
  depth_le_of_holds (fun x q _ => h.holds x q) hx

/-- Above a node there are nodes of every smaller depth. -/
theorem Leveled.exists_depth_eq (h : t.Leveled) (hx : t.Reaches root x) {d : ℕ}
    (hd : d ≤ (t.level x).depth) : ∃ a, t.Reaches a x ∧ (t.level a).depth = d := by
  induction hx with
  | refl =>
    refine ⟨root, .refl, ?_⟩
    rw [h.level_root] at hd ⊢
    exact (Nat.le_zero.mp hd).symm
  | @child q x hq hp ih =>
    by_cases he : (t.level x).depth = d
    · exact ⟨x, .refl, he⟩
    · have hdepth := Level.depth_eq_of_holds (h.holds x q hp)
      obtain ⟨a, ha, hda⟩ := ih (by omega)
      exact ⟨a, .child ha hp, hda⟩

/-- Trees whose conditional blocks open with a condition. -/
def Opened (t : Tree) : Prop :=
  ∀ n c, t.level n = .cond → (t.children n).head? = some c → (t.kind c).opensBlock

theorem Opened.of_sameShape (h : t.Opened) (hs : SameShape t t')
    (hl : ∀ x, t'.level x = t.level x)
    (hb : ∀ x, (t'.kind x).opensBlock = (t.kind x).opensBlock) : t'.Opened := by
  intro n c hn hc
  rw [hl] at hn
  rw [hs.children] at hc
  rw [hb]
  exact h n c hn hc

/-- Consistent trees with everything at its level. -/
structure Formed (t : Tree) : Prop where
  consistent : t.Consistent
  leveled : t.Leveled

/-! ### Files and templates -/

theorem Formed.file_of_mem_files (h : t.Formed) {f : NodeRef} (hf : f ∈ t.files) :
    t.Reaches root f ∧ ∃ path ns, t.kind f = .file path ns := by
  have hp := (h.consistent.mem_children root f).mp hf
  have hholds := h.leveled.holds f root hp
  rw [h.leveled.level_root] at hholds
  refine ⟨.of_parent hp, ?_⟩
  cases hk : t.kind f <;> simp_all [level, Level.holds, NodeKind.level]

theorem Formed.kind_root (h : t.Formed) : t.kind root = .fileSet := by
  have hroot := h.leveled.level_root
  rw [level] at hroot
  cases hk : t.kind root <;> simp_all [NodeKind.level]

theorem Formed.level_of_mem_file (h : t.Formed) {f n : NodeRef} (hf : f ∈ t.files)
    (hn : n ∈ t.children f) : t.level n = .template := by
  obtain ⟨-, path, ns, hk⟩ := h.file_of_mem_files hf
  have hholds := h.leveled.holds n f ((h.consistent.mem_children f n).mp hn)
  rw [level, hk] at hholds
  simpa [NodeKind.level, Level.holds] using hholds

/-- Nothing but the root is a set of files. -/
theorem Leveled.eq_root (h : t.Leveled) (hn : t.Reaches root n) (hl : t.level n = .fileSet) :
    n = root := by
  rcases h.depth_le_of_reaches hn with rfl | hdepth
  · rfl
  · rw [hl, h.level_root] at hdepth
    simp [Level.depth] at hdepth

/-- All files of a tree stand below the root. -/
theorem Formed.mem_files (h : t.Formed) (hn : t.Reaches root n) (hl : t.level n = .file) :
    n ∈ t.files := by
  rcases hn.eq_or_parent with rfl | ⟨r, hr, hroot⟩
  · rw [h.leveled.level_root] at hl
    cases hl
  · have hholds := h.leveled.holds n r hr
    rw [hl] at hholds
    obtain rfl := h.leveled.eq_root hroot (Level.eq_fileSet_of_holds hholds)
    exact (h.consistent.mem_children root n).mpr hr

/-- All templates of a tree stand below its files. -/
theorem Formed.mem_templates (h : t.Formed) (hn : t.Reaches root n) (hl : t.level n = .template) :
    n ∈ t.files.flatMap t.children := by
  rcases hn.eq_or_parent with rfl | ⟨f, hf, hroot⟩
  · rw [h.leveled.level_root] at hl
    cases hl
  · have hholds := h.leveled.holds n f hf
    rw [hl] at hholds
    exact List.mem_flatMap.mpr ⟨f, h.mem_files hroot (Level.eq_file_of_holds hholds),
      (h.consistent.mem_children f n).mpr hf⟩

end Tree

end TemplateLang
