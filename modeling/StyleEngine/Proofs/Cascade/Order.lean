import Mathlib.Data.String.Basic
import StyleEngine.Cascade.Index

/-!
# Sorting

Sort keys are compared as lists of numbers, from left to right. A sorted list is described by where
each of its elements stood before: of two elements the one with the smaller key stands first, and of
elements with equal keys the one that stood first before.

## Main definitions

* `Priority.weights`, `SelectorId.weights`: keys as lists of numbers.
* `Priority.StableSort`: what it means to sort a list by a key.

## Main statements

* `Priority.stableSort_sortBy`: `Priority.sortBy` sorts.
* `pairwise_eraseReps`: a sorted list without repetitions.
-/

namespace StyleEngine

/-! ## Keys as numbers -/

/-- Lists of numbers are compared as `<` says. -/
theorem compare_eq_lt_iff {l l' : List Nat} : compare l l' = .lt ↔ l < l' := by
  induction l generalizing l' with
  | nil => cases l' <;> simp [compare, List.compareLex_nil_nil, List.compareLex_nil_cons]
  | cons a l ih =>
    cases l' with
    | nil => simp [compare, List.compareLex_cons_nil]
    | cons b l' =>
      rw [List.cons_lt_cons_iff, ← ih]
      simp only [compare, List.compareLex_cons_cons, Ordering.then_eq_lt]
      simp only [← Nat.compare_eq_lt, ← Nat.compare_eq_eq]
      rfl

theorem isLE_compare_iff {l l' : List Nat} : (compare l l').isLE = true ↔ ¬ l' < l := by
  rw [← compare_eq_lt_iff]
  refine ⟨Std.OrientedCmp.not_lt_of_isLE, fun h => ?_⟩
  by_cases hle : (compare l l').isLE = true
  · exact hle
  · exact absurd (Std.OrientedCmp.lt_of_not_isLE hle) h

theorem isLE_compare_total (l l' : List Nat) :
    ((compare l l').isLE || (compare l' l).isLE) = true := by
  rw [Bool.or_eq_true, isLE_compare_iff, isLE_compare_iff]
  by_cases h : l' < l
  · exact .inr (List.lt_asymm h)
  · exact .inl h

namespace Priority

/-- The rank of the level, then the counters of the specificity, then the place. -/
def weights (p : Priority) : List Nat :=
  [p.level.rank, p.specificity.ids.toNat, p.specificity.classes.toNat, p.specificity.types.toNat,
    p.sourceOrder.toNat]

/-- Priorities are compared by their weights, from left to right. -/
theorem compare_eq_compare_weights (a b : Priority) :
    Ord.compare a b = Ord.compare a.weights b.weights := by
  change (Ord.compare _ _).then
    (((Ord.compare _ _).then ((Ord.compare _ _).then (Ord.compare _ _))).then (Ord.compare _ _)) = _
  rw [UInt16.compare_eq_toNat_compare_toNat, UInt16.compare_eq_toNat_compare_toNat,
    UInt16.compare_eq_toNat_compare_toNat, UInt32.compare_eq_toNat_compare_toNat]
  change _ = List.compareLex _ _ _
  simp only [weights, List.compareLex_cons_cons, List.compareLex_nil_nil, Ordering.then_eq,
    Ordering.then_assoc]

/-- `sorted` holds what `l` holds, each element with the place that it has in `l`; smaller keys
stand first, and equal keys in the order of `l`. -/
def StableSort {α : Type} (key : α → Priority) (l sorted : List α) : Prop :=
  ∃ placed : List (α × Nat), placed.map Prod.fst = sorted ∧ placed.Perm l.zipIdx ∧
    ∀ {i j : Nat} {x y : α × Nat}, placed[i]? = some x → placed[j]? = some y →
      (i < j ↔ (key x.1).weights < (key y.1).weights ∨
        (key x.1).weights = (key y.1).weights ∧ x.2 < y.2)

end Priority

namespace SelectorId

/-- The number of the rule, then the place of the selector. -/
def weights (id : SelectorId) : List Nat :=
  [id.rule.toNat, id.position.toNat]

theorem compare_eq_compare_weights (a b : SelectorId) :
    Ord.compare a b = Ord.compare a.weights b.weights := by
  change (Ord.compare _ _).then (Ord.compare _ _) = List.compareLex _ _ _
  rw [UInt16.compare_eq_toNat_compare_toNat, UInt32.compare_eq_toNat_compare_toNat]
  simp only [weights, List.compareLex_cons_cons, List.compareLex_nil_nil, Ordering.then_eq]

theorem eq_of_weights {a b : SelectorId} (h : a.weights = b.weights) : a = b := by
  obtain ⟨rule, position⟩ := a
  obtain ⟨rule', position'⟩ := b
  simpa [weights, UInt32.toNat_inj, UInt16.toNat_inj] using h

end SelectorId

/-! ## Sorted lists -/

/-- In a list that is sorted by a strict order, places are ordered as elements are. -/
theorem lt_iff_of_pairwise {α : Type} {l : List α} {before : α → α → Prop}
    (h : l.Pairwise before) (asymm : ∀ {a b}, before a b → ¬ before b a) {i j : Nat} {x y : α}
    (hx : l[i]? = some x) (hy : l[j]? = some y) : i < j ↔ before x y := by
  obtain ⟨hi, rfl⟩ := List.getElem?_eq_some_iff.mp hx
  obtain ⟨hj, rfl⟩ := List.getElem?_eq_some_iff.mp hy
  rw [List.pairwise_iff_getElem] at h
  constructor
  · exact h i j hi hj
  · intro hbefore
    rcases Nat.lt_trichotomy i j with hlt | rfl | hgt
    · exact hlt
    · exact absurd hbefore (asymm hbefore)
    · exact absurd (h j i hj hi hgt) (asymm hbefore)

namespace Priority

/-- Sorting puts the smaller key first and keeps the order of equal keys. -/
theorem stableSort_sortBy {α : Type} (key : α → Priority) (l : List α) :
    StableSort key l (sortBy key l) := by
  let le (a b : α) : Bool := (Ord.compare (key a) (key b)).isLE
  have le_eq (a b : α) : le a b = (Ord.compare (key a).weights (key b).weights).isLE := by
    simp only [le, compare_eq_compare_weights]
  have le_iff (a b : α) : le a b = true ↔ ¬ (key b).weights < (key a).weights := by
    rw [le_eq, isLE_compare_iff]
  have trans (a b c : α) (hab : le a b = true) (hbc : le b c = true) : le a c = true := by
    rw [le_eq] at hab hbc ⊢
    exact Std.TransCmp.isLE_trans hab hbc
  have total (a b : α) : (le a b || le b a) = true := by
    rw [le_eq, le_eq]
    exact isLE_compare_total _ _
  let before (x y : α × Nat) : Prop := (key x.1).weights < (key y.1).weights ∨
    (key x.1).weights = (key y.1).weights ∧ x.2 < y.2
  have asymm {x y : α × Nat} (h : before x y) : ¬ before y x := by
    rintro (h' | ⟨heq, h'⟩) <;> rcases h with h | ⟨heq', h⟩
    · exact List.lt_asymm h h'
    · exact List.lt_irrefl _ (heq' ▸ h')
    · exact List.lt_irrefl _ (heq ▸ h)
    · omega
  let placed := l.zipIdx.mergeSort (List.zipIdxLE le)
  have hperm : placed.Perm l.zipIdx := List.mergeSort_perm _ _
  have hle : placed.Pairwise fun x y => List.zipIdxLE le x y = true :=
    List.pairwise_mergeSort (List.zipIdxLE_trans trans) (List.zipIdxLE_total total) _
  -- Places differ in the list before, hence also in the sorted one.
  have hne : placed.Pairwise fun x y => x.2 ≠ y.2 := by
    rw [hperm.pairwise_iff fun h => Ne.symm h]
    exact List.pairwise_map.mp (List.zipIdx_map_snd 0 l ▸ List.nodup_range')
  have hbefore : placed.Pairwise before := by
    refine hle.imp₂ ?_ hne
    intro x y hxy hne
    unfold List.zipIdxLE at hxy
    split at hxy
    · next hle =>
      by_cases hlt : (key x.1).weights < (key y.1).weights
      · exact .inl hlt
      · rw [if_pos ((le_iff y.1 x.1).mpr hlt), decide_eq_true_iff] at hxy
        exact .inr ⟨List.le_antisymm ((le_iff x.1 y.1).mp hle) hlt, by omega⟩
    · cases hxy
  exact ⟨placed, List.mergeSort_zipIdx, hperm, lt_iff_of_pairwise hbefore asymm⟩

end Priority

/-! ## Sorted lists without repetitions -/

theorem eraseReps_loop {α : Type} [BEq α] (a : α) (l acc : List α) :
    List.eraseRepsBy.loop (· == ·) a l acc = acc.reverse ++ (a :: l).eraseReps := by
  have h : (a :: l).eraseReps = List.eraseRepsBy.loop (· == ·) a l [] := rfl
  rw [h]
  clear h
  induction l generalizing a acc with
  | nil => simp [List.eraseRepsBy.loop]
  | cons b l ih =>
    simp only [List.eraseRepsBy.loop]
    split
    · rw [ih a acc]
    · rw [ih b (a :: acc), ih b [a]]
      simp

theorem eraseReps_cons_cons {α : Type} [BEq α] (a b : α) (l : List α) :
    (a :: b :: l).eraseReps =
      if a == b then (a :: l).eraseReps else a :: (b :: l).eraseReps := by
  change List.eraseRepsBy.loop (· == ·) a (b :: l) [] = _
  rw [List.eraseRepsBy.loop]
  split
  · next h => rw [if_pos h]; rfl
  · next h =>
    rw [if_neg (by simp [h]), eraseReps_loop]
    rfl

/-- Dropping repetitions side by side loses no element. -/
theorem mem_eraseReps {α : Type} [BEq α] [LawfulBEq α] {x : α} {l : List α} :
    x ∈ l.eraseReps ↔ x ∈ l := by
  induction l with
  | nil => rfl
  | cons a l ih =>
    cases l with
    | nil => rfl
    | cons b l =>
      rw [eraseReps_cons_cons]
      split
      · next h =>
        obtain rfl := eq_of_beq h
        rw [ih]
        simp
      · simp only [List.mem_cons, ih]

/-- In a sorted list, repetitions stand side by side. -/
theorem pairwise_eraseReps {α : Type} [BEq α] [LawfulBEq α] {le : α → α → Prop}
    (antisymm : ∀ {a b}, le a b → le b a → a = b) {l : List α} (h : l.Pairwise le) :
    l.eraseReps.Pairwise fun a b => le a b ∧ a ≠ b := by
  induction l with
  | nil => exact .nil
  | cons a l ih =>
    cases l with
    | nil => exact List.pairwise_singleton _ a
    | cons b l =>
      have hl := ih h.of_cons
      rw [eraseReps_cons_cons]
      split
      · next hab =>
        obtain rfl := eq_of_beq hab
        exact hl
      · next hab =>
        refine List.pairwise_cons.mpr ⟨?_, hl⟩
        intro c hc
        have hac : le a c := List.rel_of_pairwise_cons h (mem_eraseReps.mp hc)
        refine ⟨hac, ?_⟩
        rintro rfl
        rcases List.mem_cons.mp (mem_eraseReps.mp hc) with rfl | hc
        · simp at hab
        · -- `a` stands before and behind `b`.
          have hab' := List.rel_of_pairwise_cons h (List.mem_cons_self : b ∈ b :: l)
          have hba := List.rel_of_pairwise_cons h.of_cons hc
          exact hab (by simp [antisymm hab' hba])

end StyleEngine
