import Mathlib.Logic.Relation
import StyleEngine.Element.Tree
import StyleEngine.Selector.Basic

/-!
# Walks over a tree

In a lawful tree the lists of neighbours are what following links from one element to the next
comes to. Combinators speak of links; the matcher walks over lists.

## Main definitions

* `Combinator.Relates`: the relation between two elements that a combinator asks for.
* `ElementTree.Reaches`: the elements that matching at an element may look at.
-/

namespace StyleEngine

variable {ε : Type}

/-- Following the first element of `next` again and again leads to the elements of `next`, if each
list is the rest of the one before. -/
theorem transGen_head?_iff {next : ε → List ε}
    (hnext : ∀ {e p rest}, next e = p :: rest → next p = rest) {e a : ε} :
    Relation.TransGen (fun x y => (next x).head? = some y) e a ↔ a ∈ next e := by
  constructor
  · intro h
    induction h using Relation.TransGen.head_induction_on with
    | single h => exact List.mem_of_head? h
    | head h _ ih =>
      obtain ⟨rest, hrest⟩ := List.head?_eq_some_iff.mp h
      rw [hnext hrest] at ih
      simp [hrest, ih]
  · intro h
    generalize hl : next e = l at h
    induction l generalizing e with
    | nil => simp at h
    | cons p rest ih =>
      have hp : (next e).head? = some p := by simp [hl]
      rcases List.mem_cons.mp h with rfl | h
      · exact .single hp
      · exact .head hp (ih (hnext hl) h)

/-- Each element of `next e` has as its list what follows it there. -/
theorem next_eq_of_split {next : ε → List ε}
    (hnext : ∀ {e p rest}, next e = p :: rest → next p = rest) {e a : ε} {before after : List ε}
    (h : next e = before ++ a :: after) : next a = after := by
  induction before generalizing e with
  | nil => exact hnext h
  | cons p before ih => exact ih (hnext h)

theorem cons_next_suffix {next : ε → List ε}
    (hnext : ∀ {e p rest}, next e = p :: rest → next p = rest) {e a : ε} (h : a ∈ next e) :
    a :: next a <:+ next e := by
  obtain ⟨before, after, hsplit⟩ := List.append_of_mem h
  rw [next_eq_of_split hnext hsplit]
  exact ⟨before, hsplit.symm⟩

/-- The first element of a list is the one that is looked for, or is passed by. -/
theorem exists_split_cons_iff {α : Type} {passes found : α → Prop} {a : α} {l : List α} :
    (∃ before x after, a :: l = before ++ x :: after ∧ (∀ y ∈ before, passes y) ∧ found x) ↔
      found a ∨ passes a ∧
        ∃ before x after, l = before ++ x :: after ∧ (∀ y ∈ before, passes y) ∧ found x := by
  constructor
  · rintro ⟨before, x, after, hl, hbefore, hx⟩
    rcases List.cons_eq_append_iff.mp hl with ⟨rfl, hl⟩ | ⟨before, rfl, rfl⟩
    · obtain ⟨rfl, -⟩ := List.cons.inj hl
      exact .inl hx
    · rw [List.forall_mem_cons] at hbefore
      exact .inr ⟨hbefore.1, before, x, after, rfl, hbefore.2, hx⟩
  · rintro (ha | ⟨ha, before, x, after, rfl, hbefore, hx⟩)
    · exact ⟨[], a, l, rfl, nofun, ha⟩
    · exact ⟨a :: before, x, after, rfl, List.forall_mem_cons.mpr ⟨ha, hbefore⟩, hx⟩

/-- Whether `a` stands to `e` as the combinator between their compounds asks. -/
def Combinator.Relates (t : ElementTree ε) (a e : ε) : Combinator → Prop
  | .descendant => Relation.TransGen (fun x y => t.parent? x = some y) e a
  | .child => t.parent? e = some a
  | .adjacentSibling => t.previous? e = some a
  | .generalSibling => Relation.TransGen (fun x y => t.previous? x = some y) e a

namespace ElementTree

variable {t : ElementTree ε}

/-- The elements that matching at `e` may look at: `e`, its ancestors, and what stands before any
of them among its siblings. -/
def Reaches (t : ElementTree ε) (e x : ε) : Prop :=
  ∃ a ∈ e :: t.ancestors e, x ∈ a :: t.preceding a

/-- Elements that stand beside `e` or beside an ancestor of `e`, these included. -/
def Around (t : ElementTree ε) (e x : ε) : Prop :=
  ∃ a ∈ e :: t.ancestors e, x ∈ a :: (t.preceding a ++ t.following a)

/-! ## Looking -/

variable {e x y : ε}

theorem reaches_self : t.Reaches e e :=
  ⟨e, List.mem_cons_self, List.mem_cons_self⟩

theorem reaches_of_mem_ancestors (h : x ∈ t.ancestors e) : t.Reaches e x :=
  ⟨x, List.mem_cons_of_mem _ h, List.mem_cons_self⟩

theorem reaches_of_mem_preceding (h : x ∈ t.preceding e) : t.Reaches e x :=
  ⟨e, List.mem_cons_self, List.mem_cons_of_mem _ h⟩

theorem reaches_of_parent? (h : x ∈ t.parent? e) : t.Reaches e x :=
  reaches_of_mem_ancestors (List.mem_of_head? h)

/-- A child looks at itself, at its siblings before it, and at what its parent looks at. -/
theorem reaches_below {p : ε} (hp : t.ancestors e = p :: t.ancestors p) (h : t.Reaches e y) :
    y ∈ e :: t.preceding e ∨ t.Reaches p y := by
  obtain ⟨a, ha, hy⟩ := h
  rcases List.mem_cons.mp ha with rfl | ha
  · exact .inl hy
  · exact .inr ⟨a, hp ▸ ha, hy⟩

/-! ## Neighbours -/

namespace Lawful

variable (ht : t.Lawful)

include ht

theorem relates_descendant {a e : ε} :
    Combinator.descendant.Relates t a e ↔ a ∈ t.ancestors e :=
  transGen_head?_iff ht.ancestors_eq

theorem relates_generalSibling {a e : ε} :
    Combinator.generalSibling.Relates t a e ↔ a ∈ t.preceding e :=
  transGen_head?_iff fun h => (ht.preceding_eq h).1

theorem ancestors_of_parent? {e p : ε} (h : t.parent? e = some p) :
    t.ancestors e = p :: t.ancestors p := by
  obtain ⟨rest, hrest⟩ := List.head?_eq_some_iff.mp h
  rw [hrest, ht.ancestors_eq hrest]

theorem ancestors_of_split {e a : ε} {before after : List ε}
    (h : t.ancestors e = before ++ a :: after) : t.ancestors a = after :=
  next_eq_of_split ht.ancestors_eq h

theorem cons_ancestors_suffix {e a : ε} (h : a ∈ t.ancestors e) :
    a :: t.ancestors a <:+ t.ancestors e :=
  cons_next_suffix ht.ancestors_eq h

theorem not_mem_ancestors_self (e : ε) : e ∉ t.ancestors e := by
  intro h
  exact absurd (ht.cons_ancestors_suffix h).length_le (Nat.not_succ_le_self _)

/-- The ancestors of an ancestor are further up. -/
theorem ancestors_suffix {e a : ε} (h : a ∈ t.ancestors e) :
    t.ancestors a <:+ t.ancestors e :=
  (List.suffix_cons a _).trans (ht.cons_ancestors_suffix h)

theorem cons_preceding_suffix {e s : ε} (h : s ∈ t.preceding e) :
    s :: t.preceding s <:+ t.preceding e :=
  cons_next_suffix (fun h => (ht.preceding_eq h).1) h

/-- Siblings before an element have its ancestors. -/
theorem ancestors_of_mem_preceding {e s : ε} (h : s ∈ t.preceding e) :
    t.ancestors s = t.ancestors e := by
  generalize hl : t.preceding e = l at h
  induction l generalizing e with
  | nil => simp at h
  | cons p rest ih =>
    obtain ⟨hp, -, hanc⟩ := ht.preceding_eq hl
    rcases List.mem_cons.mp h with rfl | h
    · exact hanc
    · exact (ih hp h).trans hanc

theorem ancestors_of_mem_following {e s : ε} (h : s ∈ t.following e) :
    t.ancestors s = t.ancestors e := by
  generalize hl : t.following e = l at h
  induction l generalizing e with
  | nil => simp at h
  | cons p rest ih =>
    obtain ⟨hp, -, hanc⟩ := ht.following_eq hl
    rcases List.mem_cons.mp h with rfl | h
    · exact hanc
    · exact (ih hp h).trans hanc

/-- Elements around `e` have no ancestor that `e` has not. -/
theorem ancestors_suffix_of_around {e x : ε} (h : t.Around e x) :
    t.ancestors x <:+ t.ancestors e := by
  obtain ⟨a, ha, hx⟩ := h
  have hxa : t.ancestors x = t.ancestors a := by
    rcases List.mem_cons.mp hx with rfl | hx
    · rfl
    · rcases List.mem_append.mp hx with hx | hx
      · exact ht.ancestors_of_mem_preceding hx
      · exact ht.ancestors_of_mem_following hx
  rw [hxa]
  rcases List.mem_cons.mp ha with rfl | ha
  · exact List.suffix_refl _
  · exact ht.ancestors_suffix ha

theorem reaches_trans {e x y : ε} (hx : t.Reaches e x) (hy : t.Reaches x y) : t.Reaches e y := by
  obtain ⟨a, ha, hx⟩ := hx
  obtain ⟨b, hb, hy⟩ := hy
  rcases List.mem_cons.mp hb with rfl | hb
  · -- `y` stands before `x`, which stands before `a` or is `a`.
    refine ⟨a, ha, ?_⟩
    rcases List.mem_cons.mp hx with rfl | hx
    · exact hy
    · exact List.mem_cons_of_mem _ ((ht.cons_preceding_suffix hx).subset hy)
  · -- `b` is an ancestor of `x`, and so of `a` and of `e`.
    have hba : b ∈ t.ancestors a := by
      rcases List.mem_cons.mp hx with rfl | hx
      · exact hb
      · exact ht.ancestors_of_mem_preceding hx ▸ hb
    refine ⟨b, List.mem_cons_of_mem _ ?_, hy⟩
    rcases List.mem_cons.mp ha with rfl | ha
    · exact hba
    · exact (ht.ancestors_suffix ha).subset hba

end Lawful

end ElementTree

end StyleEngine
