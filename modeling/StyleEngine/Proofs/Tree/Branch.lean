import StyleEngine.Element.Styled
import StyleEngine.Proofs.Tree.Walk

/-!
# Branches of a tree

The branch of an element holds the element and its descendants, each once. In a tree with one
element at the top, whatever matching at an element of its branch may look at is in the branch too;
and matching outside the branch of an element looks at no descendant of the element.

## Main definitions

* `StyledTree.Rooted`: a tree with one element at the top, whose keys tell its elements apart.

## Main statements

* `Lawful.nodup_elements`: a branch holds each element once.
* `Rooted.mem_of_reaches`: the elements below the root are closed under `ElementTree.Reaches`.
* `Rooted.mem_branch_of_reaches`: descendants are only looked at from within.
-/

namespace StyleEngine

variable {ε : Type}

namespace Branch

/-- What holds of a node if it holds of the branches of its children holds of every branch. -/
theorem induction {motive : Branch ε → Prop}
    (node : ∀ e cs, (∀ c ∈ cs, motive c) → motive (.node e cs)) (b : Branch ε) : motive b :=
  Branch.rec (motive_1 := motive) (motive_2 := fun cs => ∀ c ∈ cs, motive c) node
    (fun _ h => absurd h List.not_mem_nil)
    (fun _ _ hb hbs c hc => (List.mem_cons.mp hc).elim (fun h => h ▸ hb) (hbs c)) b

theorem elementsOfAll_eq_flatMap (bs : List (Branch ε)) :
    elementsOfAll bs = bs.flatMap elements := by
  induction bs with
  | nil => rw [elementsOfAll, List.flatMap_nil]
  | cons b bs ih => rw [elementsOfAll, List.flatMap_cons, ih]

theorem elements_eq (b : Branch ε) : b.elements = b.element :: b.children.flatMap elements := by
  obtain ⟨e, cs⟩ := b
  rw [elements, elementsOfAll_eq_flatMap, element, children]

end Branch

namespace StyledTree

variable {t : StyledTree ε} {e x y : ε}

namespace Lawful

variable (ht : t.Lawful)

include ht

/-- Elements can be gone through from the leaves to the root. -/
theorem induction_branch {motive : ε → Prop}
    (step : ∀ e, (∀ c ∈ (t.branch e).children, motive c.element) → motive e) (e : ε) :
    motive e := by
  generalize hb : t.branch e = b
  induction b using Branch.induction generalizing e with
  | node a cs ih =>
    refine step e fun c hc => ?_
    have hcs : c ∈ cs := by simpa [hb, Branch.children] using hc
    exact ih c hcs c.element (ht.branch_child hc).1

theorem elements_branch (e : ε) :
    (t.branch e).elements = e :: (t.branch e).children.flatMap Branch.elements := by
  rw [Branch.elements_eq, ht.element_branch]

theorem mem_elements_iff :
    x ∈ (t.branch e).elements ↔
      x = e ∨ ∃ c ∈ (t.branch e).children, x ∈ (t.branch c.element).elements := by
  rw [ht.elements_branch, List.mem_cons, List.mem_flatMap]
  refine or_congr Iff.rfl (exists_congr fun c => and_congr_right fun hc => ?_)
  rw [(ht.branch_child hc).1]

theorem mem_elements_self (e : ε) : e ∈ (t.branch e).elements :=
  ht.mem_elements_iff.mpr (.inl rfl)

theorem mem_trans (h : x ∈ (t.branch e).elements) (hy : y ∈ (t.branch x).elements) :
    y ∈ (t.branch e).elements := by
  induction e using ht.induction_branch with
  | step e ih =>
    rcases ht.mem_elements_iff.mp h with rfl | ⟨c, hc, hx⟩
    · exact hy
    · exact ht.mem_elements_iff.mpr (.inr ⟨c, hc, ih c hc hx⟩)

/-- The way up from an element of a branch goes through the top of the branch. -/
theorem cons_ancestors_suffix_of_mem (h : x ∈ (t.branch e).elements) :
    e :: t.ancestors e <:+ x :: t.ancestors x := by
  induction e using ht.induction_branch with
  | step e ih =>
    rcases ht.mem_elements_iff.mp h with rfl | ⟨c, hc, hx⟩
    · exact List.suffix_refl _
    · have hup := ih c hc hx
      rw [(ht.branch_child hc).2] at hup
      exact (List.suffix_cons _ _).trans hup

/-- An element below another one has it among its ancestors. -/
theorem mem_ancestors_of_mem (h : x ∈ (t.branch e).elements) (hne : x ≠ e) : e ∈ t.ancestors x := by
  rcases List.suffix_cons_iff.mp (ht.cons_ancestors_suffix_of_mem h) with heq | hsuffix
  · exact absurd (List.cons.inj heq).1.symm hne
  · exact hsuffix.subset List.mem_cons_self

/-- Every element on the way up to the top of a branch is in the branch, and has what lies behind in
its own. -/
theorem mem_branch_of_ancestor {a : ε} (h : x ∈ (t.branch e).elements)
    (ha : a ∈ x :: t.ancestors x) (hout : a ∉ t.ancestors e) :
    a ∈ (t.branch e).elements ∧ x ∈ (t.branch a).elements := by
  induction e using ht.induction_branch with
  | step e ih =>
    rcases ht.mem_elements_iff.mp h with rfl | ⟨c, hc, hx⟩
    · rcases List.mem_cons.mp ha with rfl | ha
      · exact ⟨h, h⟩
      · exact absurd ha hout
    · by_cases hac : a ∈ t.ancestors c.element
      · rw [(ht.branch_child hc).2] at hac
        rcases List.mem_cons.mp hac with rfl | hac
        · exact ⟨ht.mem_elements_self a, h⟩
        · exact absurd hac hout
      · obtain ⟨hmem, hxa⟩ := ih c hc hx hac
        exact ⟨ht.mem_elements_iff.mpr (.inr ⟨c, hc, hmem⟩), hxa⟩

/-- Every element of a branch but the top one is a child of an element of the branch. -/
theorem exists_child (h : x ∈ (t.branch e).elements) (hne : x ≠ e) :
    ∃ p ∈ (t.branch e).elements, ∃ c ∈ (t.branch p).children, c.element = x := by
  induction e using ht.induction_branch with
  | step e ih =>
    rcases ht.mem_elements_iff.mp h with rfl | ⟨c, hc, hx⟩
    · exact absurd rfl hne
    · by_cases hxc : x = c.element
      · exact ⟨e, ht.mem_elements_self e, c, hc, hxc.symm⟩
      · obtain ⟨p, hp, hchild⟩ := ih c hc hx hxc
        exact ⟨p, ht.mem_elements_iff.mpr (.inr ⟨c, hc, hp⟩), hchild⟩

/-- A child of an element is in its branch. -/
theorem child_mem {c : Branch ε} (hc : c ∈ (t.branch e).children) :
    c.element ∈ (t.branch e).elements :=
  ht.mem_elements_iff.mpr (.inr ⟨c, hc, ht.mem_elements_self _⟩)

/-- The siblings before a child are the children before it. -/
theorem preceding_getElem {e : ε} {i : Nat} (hi : i < (t.branch e).children.length) :
    t.preceding (t.branch e).children[i].element =
      (((t.branch e).children.take i).map Branch.element).reverse := by
  have hsplit : (t.branch e).children =
      (t.branch e).children.take i ++
        (t.branch e).children[i] :: (t.branch e).children.drop (i + 1) := by
    simp
  exact (ht.siblings_child hsplit).1

theorem element_ne_of_lt {e : ε} {i j : Nat} (hi : i < (t.branch e).children.length)
    (hj : j < (t.branch e).children.length) (hij : i < j) :
    (t.branch e).children[i].element ≠ (t.branch e).children[j].element := by
  intro heq
  have hlen := congrArg (fun x => (t.preceding x).length) heq
  simp only [ht.preceding_getElem, List.length_reverse, List.length_map, List.length_take] at hlen
  omega

/-- A branch holds each element once: the ways up from two children of an element are equally long
and differ, so no element has both on its way up. -/
theorem nodup_elements (e : ε) : (t.branch e).elements.Nodup := by
  induction e using ht.induction_branch with
  | step e ih =>
    have below {c : Branch ε} {x : ε} (hc : c ∈ (t.branch e).children) (hx : x ∈ c.elements) :
        c.element :: e :: t.ancestors e <:+ x :: t.ancestors x := by
      obtain ⟨hbranch, hup⟩ := ht.branch_child hc
      rw [← hup]
      exact ht.cons_ancestors_suffix_of_mem (hbranch.symm ▸ hx)
    rw [ht.elements_branch, List.nodup_cons]
    constructor
    · intro hmem
      obtain ⟨c, hc, hx⟩ := List.mem_flatMap.mp hmem
      have hlen := (below hc hx).length_le
      simp only [List.length_cons] at hlen
      omega
    · refine List.pairwise_flatMap.mpr ⟨fun c hc => (ht.branch_child hc).1 ▸ ih c hc, ?_⟩
      refine List.pairwise_iff_getElem.mpr fun i j hi hj hij x hx y hx' hxy => ?_
      subst hxy
      have hc := List.getElem_mem hi
      have hc' := List.getElem_mem hj
      have hsuffix := List.suffix_of_suffix_length_le (below hc hx) (below hc' hx') (Nat.le_refl _)
      have heq : (t.branch e).children[i].element = (t.branch e).children[j].element :=
        (List.cons.inj (hsuffix.eq_of_length rfl)).1
      exact ht.element_ne_of_lt hi hj hij heq

end Lawful

/-- All elements of interest are below `root`, in the document, and told apart by their keys. -/
structure Rooted (t : StyledTree ε) (root : ε) : Prop extends lawful : t.Lawful where
  ancestors_root : t.ancestors root = []
  preceding_root : t.preceding root = []
  key_injective : ∀ {a b}, a ∈ (t.branch root).elements → b ∈ (t.branch root).elements →
    t.key a = t.key b → a = b
  connected : ∀ {a}, a ∈ (t.branch root).elements → t.isConnected a = true

namespace Rooted

variable {root : ε} (ht : t.Rooted root)

include ht

theorem mem_root : root ∈ (t.branch root).elements :=
  ht.mem_elements_self root

/-- The root is an ancestor of every other element. -/
theorem root_mem_ancestors (h : x ∈ (t.branch root).elements) (hne : x ≠ root) :
    root ∈ t.ancestors x :=
  ht.mem_ancestors_of_mem h hne

theorem isRoot_iff (h : x ∈ (t.branch root).elements) : t.isRoot x = true ↔ x = root := by
  rw [ElementTree.isRoot, List.isEmpty_iff]
  refine ⟨fun hnil => ?_, fun heq => heq ▸ ht.ancestors_root⟩
  refine Classical.byContradiction fun hne => ?_
  have hmem := ht.root_mem_ancestors h hne
  simp [hnil] at hmem

theorem mem_of_ancestor {a : ε} (h : x ∈ (t.branch root).elements) (ha : a ∈ x :: t.ancestors x) :
    a ∈ (t.branch root).elements ∧ x ∈ (t.branch a).elements :=
  ht.mem_branch_of_ancestor h ha (by simp [ht.ancestors_root])

/-- Siblings before an element below the root are children of the same parent. -/
theorem exists_child_of_preceding (h : x ∈ (t.branch root).elements) (hy : y ∈ t.preceding x) :
    ∃ p ∈ (t.branch root).elements, ∃ c ∈ (t.branch p).children, c.element = y := by
  have hne : x ≠ root := by
    rintro rfl
    simp [ht.preceding_root] at hy
  obtain ⟨p, hp, c, hc, rfl⟩ := ht.exists_child h hne
  obtain ⟨before, after, hsplit⟩ := List.append_of_mem hc
  rw [(ht.siblings_child hsplit).1, List.mem_reverse] at hy
  obtain ⟨c', hc', rfl⟩ := List.mem_map.mp hy
  exact ⟨p, hp, c', hsplit ▸ List.mem_append_left _ hc', rfl⟩

/-- Matching at an element below the root looks at elements below the root only. -/
theorem mem_of_reaches (h : x ∈ (t.branch root).elements) (hy : t.Reaches x y) :
    y ∈ (t.branch root).elements := by
  obtain ⟨a, ha, hy⟩ := hy
  have hmem := (ht.mem_of_ancestor h ha).1
  rcases List.mem_cons.mp hy with rfl | hy
  · exact hmem
  · obtain ⟨p, hp, c, hc, rfl⟩ := ht.exists_child_of_preceding hmem hy
    exact ht.mem_trans hp (ht.child_mem hc)

/-- Matching looks at a descendant of an element only if it is itself below that element. -/
theorem mem_branch_of_reaches {r : ε} (h : x ∈ (t.branch root).elements) (hy : t.Reaches x y)
    (hmem : y ∈ (t.branch r).elements) (hne : y ≠ r) : x ∈ (t.branch r).elements ∧ x ≠ r := by
  obtain ⟨a, ha, hy⟩ := hy
  have hup : t.ancestors y = t.ancestors a := by
    rcases List.mem_cons.mp hy with rfl | hy
    · rfl
    · exact ht.ancestors_of_mem_preceding hy
  have hr : r ∈ t.ancestors a := hup ▸ ht.mem_ancestors_of_mem hmem hne
  have hrx : r ∈ t.ancestors x := by
    rcases List.mem_cons.mp ha with rfl | ha
    · exact hr
    · exact (ht.ancestors_suffix ha).subset hr
  refine ⟨(ht.mem_of_ancestor h (List.mem_cons_of_mem _ hrx)).2, ?_⟩
  rintro rfl
  exact ht.not_mem_ancestors_self x hrx

/-- No element looks at what is below it. -/
theorem not_reaches_of_mem_ancestors {a : ε} (h : x ∈ (t.branch root).elements)
    (ha : a ∈ t.ancestors x) : ¬t.Reaches a x := by
  intro hreaches
  obtain ⟨hmem, hxa⟩ := ht.mem_of_ancestor h (List.mem_cons_of_mem x ha)
  have hne : x ≠ a := by
    rintro rfl
    exact ht.not_mem_ancestors_self x ha
  exact (ht.mem_branch_of_reaches hmem hreaches hxa hne).2 rfl

end Rooted

end StyledTree

end StyleEngine
