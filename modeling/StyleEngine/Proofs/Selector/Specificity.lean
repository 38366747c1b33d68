import Mathlib.Algebra.GroupWithZero.Nat
import StyleEngine.Proofs.Selector.Arrangement
import StyleEngine.Selector.Specificity

/-!
# What specificities count

Each counter of a specificity is the number of simple selectors that belong to its column, wherever
they stand in the selector, held at the largest 16-bit number. So it does not matter in which order
the sums are taken, nor how often they stop at that number on the way.

## Main definitions

* `Specificity.Column`, `Simple.column?`: which counter a simple selector belongs to.
* `Complex.tally`: the number of simple selectors of a column.
* `Complex.Reordered`, `Complex.Enlarged`: other orders, and more of the same.

## Main statements

* `Complex.toNat_counter_specificity`: a counter is a number held at its largest value.
* `Specificity.lt_iff_packed_lt`: the order of specificities is that of their packed numbers.
-/

namespace StyleEngine

/-! ## Columns -/

namespace Specificity

/-- Ids, classes with their equals, and types with theirs. -/
inductive Column
  | ids
  | classes
  | types
deriving DecidableEq, Repr

def counter (s : Specificity) : Column → UInt16
  | .ids => s.ids
  | .classes => s.classes
  | .types => s.types

variable {a b : Specificity}

theorem ext_counter (h : ∀ column, a.counter column = b.counter column) : a = b := by
  obtain ⟨ids, classes, types⟩ := a
  obtain ⟨ids', classes', types'⟩ := b
  obtain rfl : ids = ids' := h .ids
  obtain rfl : classes = classes' := h .classes
  obtain rfl : types = types' := h .types
  rfl

@[simp] theorem counter_zero (column : Column) : zero.counter column = 0 := by
  cases column <;> rfl

theorem toNat_saturatingSum (m n : UInt16) :
    (saturatingSum m n).toNat = min 65535 (m.toNat + n.toNat) := by
  rw [saturatingSum, UInt16.toNat_ofNat']
  omega

@[simp] theorem toNat_counter_add (a b : Specificity) (column : Column) :
    ((a + b).counter column).toNat =
      min 65535 ((a.counter column).toNat + (b.counter column).toNat) := by
  cases column <;> exact toNat_saturatingSum _ _

/-! ## The order -/

/-- The first counter in which two specificities differ decides. -/
theorem lt_iff :
    a < b ↔ a.ids < b.ids ∨ a.ids = b.ids ∧
      (a.classes < b.classes ∨ a.classes = b.classes ∧ a.types < b.types) := by
  change compare a b = .lt ↔ _
  simp only [compare, Ordering.then_eq_lt, UInt16.compare_eq_toNat_compare_toNat,
    Nat.compare_eq_lt, Nat.compare_eq_eq, UInt16.lt_iff_toNat_lt, UInt16.toNat_inj]

/-- No counter reaches into the next one of the packed number. -/
theorem lt_iff_packed_lt : a < b ↔ a.packed < b.packed := by
  have hclasses := a.classes.toNat_lt
  have hclasses' := b.classes.toNat_lt
  have htypes := a.types.toNat_lt
  have htypes' := b.types.toNat_lt
  simp only [lt_iff, packed, UInt16.lt_iff_toNat_lt, ← UInt16.toNat_inj, UInt32.size, UInt16.size]
  omega

end Specificity

/-! ## Simple selectors at any depth -/

/-- The column that a simple selector belongs to. A negation belongs to none itself. -/
def Simple.column? : Simple → Option Specificity.Column
  | .universal | .negation _ => none
  | .id _ => some .ids
  | .className _ | .attribute _ | .pseudoClass _ => some .classes
  | .tag _ | .pseudoElement _ => some .types

mutual
/-- A simple selector with all that stand inside it. -/
def Simple.parts (s : Simple) : List Simple :=
  match s with
  | .negation inner => .negation inner :: Compound.parts inner
  | s => [s]
/-- The simple selectors of a compound, those inside negations included. -/
def Compound.parts (c : Compound) : List Simple :=
  match c with
  | [] => []
  | s :: rest => s.parts ++ Compound.parts rest
end

/-- The number of simple selectors of a column in `s`. -/
def Simple.tally (column : Specificity.Column) (s : Simple) : Nat :=
  s.parts.countP (·.column? = some column)

namespace Compound

/-- The number of simple selectors of a column in `c`. -/
def tally (column : Specificity.Column) (c : Compound) : Nat :=
  c.parts.countP (·.column? = some column)

theorem parts_eq_flatMap (c : Compound) : c.parts = c.flatMap Simple.parts := by
  induction c with
  | nil => rfl
  | cons s c ih => rw [parts, ih, List.flatMap_cons]

variable {column : Specificity.Column} {c c' : Compound}

@[simp] theorem tally_nil : tally column [] = 0 :=
  rfl

@[simp] theorem tally_cons (s : Simple) (c : Compound) :
    tally column (s :: c) = s.tally column + c.tally column := by
  simp [tally, Simple.tally, parts]

@[simp] theorem tally_append (c c' : Compound) :
    tally column (c ++ c') = c.tally column + c'.tally column := by
  simp [tally, parts_eq_flatMap]

end Compound

@[simp] theorem Simple.tally_negation (column : Specificity.Column) (inner : Compound) :
    (Simple.negation inner).tally column = inner.tally column := by
  simp [Simple.tally, Compound.tally, Simple.parts, Simple.column?]

mutual
/-- A counter stops at the largest 16-bit number and is exact below it. -/
theorem Simple.toNat_counter_specificity (column : Specificity.Column) (s : Simple) :
    (s.specificity.counter column).toNat = min 65535 (s.tally column) := by
  match s with
  | .negation inner =>
    rw [Simple.specificity, Compound.toNat_counter_specificityFrom column .zero inner]
    simp
  | .universal | .tag _ | .id _ | .className _ | .attribute _ | .pseudoClass _
  | .pseudoElement _ => cases column <;> rfl
theorem Compound.toNat_counter_specificityFrom (column : Specificity.Column) (total : Specificity)
    (c : List Simple) :
    ((Compound.specificityFrom total c).counter column).toNat =
      min 65535 ((total.counter column).toNat + Compound.tally column c) := by
  match c with
  | [] =>
    have hlt := (total.counter column).toNat_lt
    rw [Compound.specificityFrom, Compound.tally_nil]
    omega
  | s :: rest =>
    rw [Compound.specificityFrom, Compound.toNat_counter_specificityFrom column _ rest,
      Specificity.toNat_counter_add, Simple.toNat_counter_specificity column s, Compound.tally_cons]
    omega
end

theorem Compound.toNat_counter_specificity (column : Specificity.Column) (c : Compound) :
    (c.specificity.counter column).toNat = min 65535 (c.tally column) := by
  simp [Compound.specificity, toNat_counter_specificityFrom]

namespace Complex

/-- The number of simple selectors of a column in `s`. -/
def tally (column : Specificity.Column) (s : Complex) : Nat :=
  (s.compounds.flatMap Compound.parts).countP (·.column? = some column)

theorem tally_eq_sum (column : Specificity.Column) (s : Complex) :
    s.tally column = (s.compounds.map (Compound.tally column)).sum := by
  rw [tally, List.countP_flatMap]
  rfl

/-- A counter of a selector is the number of simple selectors of its column, held at the largest
16-bit number. -/
theorem toNat_counter_specificity (column : Specificity.Column) (s : Complex) :
    (s.specificity.counter column).toNat = min 65535 (s.tally column) := by
  rw [specificity, tally_eq_sum]
  induction s.compounds with
  | nil => cases column <;> rfl
  | cons c l ih =>
    rw [List.foldr_cons, Specificity.toNat_counter_add, ih, Compound.toNat_counter_specificity,
      List.map_cons, List.sum_cons]
    omega

end Complex

/-! ## Other orders, and more of the same -/

namespace Compound

variable {R : Compound → Compound → Prop} {c c' : Compound}

theorem Throughout.symm (hR : ∀ {c c'}, R c c' → R c' c) (h : Throughout R c c') :
    Throughout R c' c := by
  induction h with
  | here h => exact .here (hR h)
  | inside before after _ ih => exact .inside before after ih
  | trans _ _ ih ih' => exact .trans ih' ih

/-- What makes no number smaller makes none smaller inside negations. -/
theorem Throughout.tally_le {column : Specificity.Column}
    (hR : ∀ {c c'}, R c c' → c.tally column ≤ c'.tally column) (h : Throughout R c c') :
    c.tally column ≤ c'.tally column := by
  induction h with
  | here h => exact hR h
  | inside before after _ ih => simpa using ih
  | trans _ _ ih ih' => exact Nat.le_trans ih ih'

theorem tally_le_of_sublist {column : Specificity.Column} (h : c.Sublist c') :
    c.tally column ≤ c'.tally column := by
  induction h with
  | slnil => exact Nat.le_refl 0
  | cons s _ ih => grind [tally_cons]
  | cons_cons s _ ih => grind [tally_cons]

/-- The numbers do not hang on the arrangement. -/
theorem Rearranged.tally_eq (h : c.Rearranged c') (column : Specificity.Column) :
    c.tally column = c'.tally column := by
  have hle {c c' : Compound} (h : c.Perm c') : c.tally column ≤ c'.tally column := by
    rw [tally, tally, parts_eq_flatMap, parts_eq_flatMap]
    exact Nat.le_of_eq ((h.flatMap_right _).countP_eq _)
  exact Nat.le_antisymm (h.tally_le hle) ((h.symm List.Perm.symm).tally_le hle)

end Compound

namespace Complex

/-- The same compounds in another order, each of them rearranged. Combinators do not matter. -/
def Reordered (s s' : Complex) : Prop :=
  ∃ l, s.compounds.Perm l ∧ List.Forall₂ Compound.Rearranged l s'.compounds

/-- The same compounds with more simple selectors in them, and more compounds. -/
def Enlarged (s s' : Complex) : Prop :=
  List.SublistForall₂ (Compound.Throughout List.Sublist) s.compounds s'.compounds

theorem map_tally_of_rearranged {l l' : List Compound} (h : List.Forall₂ Compound.Rearranged l l')
    (column : Specificity.Column) :
    l.map (Compound.tally column) = l'.map (Compound.tally column) := by
  induction h with
  | nil => rfl
  | cons h _ ih => exact congrArg₂ List.cons (h.tally_eq column) ih

theorem Reordered.tally_eq {s s' : Complex} (h : s.Reordered s') (column : Specificity.Column) :
    s.tally column = s'.tally column := by
  obtain ⟨l, hperm, hl⟩ := h
  rw [tally_eq_sum, tally_eq_sum, ← map_tally_of_rearranged hl]
  exact (hperm.map _).sum_nat

theorem Enlarged.tally_le {s s' : Complex} (h : s.Enlarged s') (column : Specificity.Column) :
    s.tally column ≤ s'.tally column := by
  rw [tally_eq_sum, tally_eq_sum]
  unfold Enlarged at h
  generalize s.compounds = l, s'.compounds = l' at h
  induction h with
  | nil => exact Nat.zero_le _
  | cons h _ ih =>
    simpa using Nat.add_le_add (h.tally_le Compound.tally_le_of_sublist) ih
  | cons_right _ ih => simpa using Nat.le_trans ih (Nat.le_add_left _ _)

theorem Reordered.specificity_eq {s s' : Complex} (h : s.Reordered s') :
    s'.specificity = s.specificity := by
  refine Specificity.ext_counter fun column => UInt16.toNat_inj.mp ?_
  rw [toNat_counter_specificity, toNat_counter_specificity, h.tally_eq]

theorem Enlarged.counter_le {s s' : Complex} (h : s.Enlarged s') (column : Specificity.Column) :
    s.specificity.counter column ≤ s'.specificity.counter column := by
  have hle := h.tally_le column
  rw [UInt16.le_iff_toNat_le, toNat_counter_specificity, toNat_counter_specificity]
  omega

/-- Each counter of a specificity is the number of simple selectors of its column, at any depth,
held at the largest 16-bit number. It does not hang on the order of the compounds or of their simple
selectors, and more of either makes no counter smaller. Specificities are ordered as their packed
numbers. -/
theorem specificity_tally (s : Complex) :
    (∀ column, (s.specificity.counter column).toNat = min 65535 (s.tally column)) ∧
      (∀ s', s.Reordered s' → s'.specificity = s.specificity) ∧
      (∀ s', s.Enlarged s' →
        ∀ column, s.specificity.counter column ≤ s'.specificity.counter column) ∧
      ∀ a b : Specificity, a < b ↔ a.packed < b.packed :=
  ⟨s.toNat_counter_specificity, fun _ h => h.specificity_eq, fun _ h => h.counter_le,
    fun _ _ => Specificity.lt_iff_packed_lt⟩

/-- The selector `#nav li:not(.a)`, with its compounds and simple selectors in another order, and
with a class more inside the negation and a compound more on the left. -/
theorem specificity_tally_item :
    let s : Complex := ⟨[.tag "li", .negation [.className "a"]], [(.descendant, [.id "nav"])]⟩
    let s' : Complex := ⟨[.id "nav"], [(.child, [.negation [.className "a"], .tag "li"])]⟩
    let s'' : Complex := ⟨[.tag "li", .negation [.className "a", .className "b"]],
      [(.child, [.id "nav"]), (.descendant, [.universal])]⟩
    s.Reordered s' ∧ s.Enlarged s'' ∧
      (∀ column, (s.specificity.counter column).toNat = min 65535 (s.tally column)) ∧
      s'.specificity = s.specificity ∧
      (∀ column, s.specificity.counter column ≤ s''.specificity.counter column) := by
  intro s s' s''
  have hreordered : s.Reordered s' :=
    ⟨_, .swap _ _ _, .cons (.here (.refl _)) (.cons (.here (.swap _ _ _)) .nil)⟩
  have hmore : Compound.Throughout List.Sublist [.className "a"] [.className "a", .className "b"] :=
    .here (by simp)
  have henlarged : s.Enlarged s'' :=
    .cons (hmore.inside [.tag "li"] []) (.cons (.here (.refl _)) .nil)
  obtain ⟨hcount, hsame, hless, -⟩ := s.specificity_tally
  exact ⟨hreordered, henlarged, hcount, hsame s' hreordered, hless s'' henlarged⟩

end Complex

end StyleEngine
