import Mathlib
import StyleEngine.Computation.Scale
import StyleEngine.Settings

/-!
# Zeros of either sign

Equality of floats does not tell the two zeros apart, and groups that are equal are shared, so the
sign of a zero in a style is a matter of chance. It makes no difference to anything else: what is
computed from numbers that agree up to the sign of a zero agrees in the same way.

## Main definitions

* `plainZero`: a number with the sign of a zero dropped.

## Main statements

* `plainZero_eq_of_beq`: equal numbers agree.
* `plainZero_mul`, `plainZero_div`, `plainZero_maxPx`: arithmetic respects agreement.
-/

namespace StyleEngine

open Float.Model.UnpackedFloat (Sign)

/-- The number, with the positive zero for either zero. -/
def plainZero (x : Float32) : Float32 :=
  if x == 0 then 0 else x

/-! ## Zeros -/

/-- Whether a number is a zero of either sign. -/
def IsZero (x : Float32) : Prop :=
  ∃ s, x.toModel.unpack = .zero s

theorem isZero_ofModel (s : Sign) : IsZero (.ofModel (.pack (.zero s))) :=
  ⟨s, by cases s <;> rfl⟩

theorem isZero_zero : IsZero 0 := by
  have h : (0 : Float32) = .ofModel (.pack (.zero .positive)) := by decide +kernel
  exact h ▸ isZero_ofModel .positive

theorem isZero_neg_zero : IsZero (-0) := by
  have h : (-0 : Float32) = .ofModel (.pack (.zero .negative)) := by decide +kernel
  exact h ▸ isZero_ofModel .negative

/-- Numbers that compare as equal are equal or both zero. -/
theorem eq_or_isZero_of_beq {x y : Float32} (h : (x == y) = true) :
    x = y ∨ IsZero x ∧ IsZero y := by
  obtain ⟨-, -, rfl | ⟨rfl, rfl⟩ | ⟨rfl, rfl⟩⟩ := Float32.beq_iff_ne_nan_and_eq.mp h
  · exact .inl rfl
  · exact .inr ⟨isZero_zero, isZero_neg_zero⟩
  · exact .inr ⟨isZero_neg_zero, isZero_zero⟩

theorem IsZero.beq {x y : Float32} (hx : IsZero x) (hy : IsZero y) : (x == y) = true := by
  obtain ⟨s, hs⟩ := hx
  obtain ⟨t, ht⟩ := hy
  change (x.toModel.unpack.compare y.toModel.unpack == some .eq) = true
  rw [hs, ht]
  cases s <;> cases t <;> rfl

theorem beq_zero_iff {x : Float32} : (x == 0) = true ↔ IsZero x := by
  constructor
  · intro h
    rcases eq_or_isZero_of_beq h with rfl | ⟨hx, -⟩
    · exact isZero_zero
    · exact hx
  · intro h
    exact h.beq isZero_zero

theorem IsZero.plainZero_eq {x : Float32} (h : IsZero x) : plainZero x = 0 :=
  if_pos (beq_zero_iff.mpr h)

theorem plainZero_eq_self {x : Float32} (h : ¬IsZero x) : plainZero x = x :=
  if_neg (mt beq_zero_iff.mp h)

theorem plainZero_eq_iff {x y : Float32} :
    plainZero x = plainZero y ↔ x = y ∨ IsZero x ∧ IsZero y := by
  constructor
  · intro h
    by_cases hx : IsZero x <;> by_cases hy : IsZero y
    · exact .inr ⟨hx, hy⟩
    · rw [hx.plainZero_eq, plainZero_eq_self hy] at h
      exact absurd (h ▸ isZero_zero) hy
    · rw [plainZero_eq_self hx, hy.plainZero_eq] at h
      exact absurd (h ▸ isZero_zero) hx
    · rw [plainZero_eq_self hx, plainZero_eq_self hy] at h
      exact .inl h
  · rintro (rfl | ⟨hx, hy⟩)
    · rfl
    · rw [hx.plainZero_eq, hy.plainZero_eq]

@[simp] theorem plainZero_plainZero (x : Float32) : plainZero (plainZero x) = plainZero x := by
  by_cases hx : IsZero x
  · rw [hx.plainZero_eq, isZero_zero.plainZero_eq]
  · rw [plainZero_eq_self hx, plainZero_eq_self hx]

/-- Equal numbers agree up to the sign of a zero. -/
theorem plainZero_eq_of_beq {x y : Float32} (h : (x == y) = true) : plainZero x = plainZero y :=
  plainZero_eq_iff.mpr (eq_or_isZero_of_beq h)

/-- What agrees up to the sign of a zero is equal, if it is a number. -/
theorem beq_of_plainZero_eq {x y : Float32} (h : plainZero x = plainZero y)
    (hself : (x == x) = true) : (x == y) = true := by
  rcases plainZero_eq_iff.mp h with rfl | ⟨hx, hy⟩
  · exact hself
  · exact hx.beq hy

theorem beq_self_of_plainZero_eq {x y : Float32} (h : plainZero x = plainZero y)
    (hself : (x == x) = true) : (y == y) = true := by
  rcases plainZero_eq_iff.mp h with rfl | ⟨-, hy⟩
  · exact hself
  · exact hy.beq hy

/-! ## Arithmetic -/

section Arithmetic

variable {x x' y y' : Float32}

/-- A product with a zero is a zero, or else not a number, whatever the sign of the zero. -/
theorem IsZero.plainZero_mul (hx : IsZero x) (hx' : IsZero x') (y : Float32) :
    plainZero (x * y) = plainZero (x' * y) ∧ plainZero (y * x) = plainZero (y * x') := by
  obtain ⟨s, hs⟩ := hx
  obtain ⟨s', hs'⟩ := hx'
  have mul_eq (a b : Float32) :
      a * b = .ofModel (.pack (.mul .binary32 a.toModel.unpack b.toModel.unpack)) := rfl
  simp only [mul_eq, plainZero_eq_iff, hs, hs']
  cases y.toModel.unpack with
  | notANumber | infinity => exact ⟨.inl rfl, .inl rfl⟩
  | zero | finite =>
    exact ⟨.inr ⟨isZero_ofModel _, isZero_ofModel _⟩, .inr ⟨isZero_ofModel _, isZero_ofModel _⟩⟩

theorem IsZero.plainZero_div (hx : IsZero x) (hx' : IsZero x') (y : Float32) :
    plainZero (x / y) = plainZero (x' / y) := by
  obtain ⟨s, hs⟩ := hx
  obtain ⟨s', hs'⟩ := hx'
  have div_eq (a b : Float32) :
      a / b = .ofModel (.pack (.div .binary32 a.toModel.unpack b.toModel.unpack)) := rfl
  simp only [div_eq, plainZero_eq_iff, hs, hs']
  cases y.toModel.unpack with
  | notANumber | zero => exact .inl rfl
  | infinity | finite => exact .inr ⟨isZero_ofModel _, isZero_ofModel _⟩

theorem IsZero.lt_iff (hx : IsZero x) (hx' : IsZero x') (y : Float32) :
    (x < y ↔ x' < y) ∧ (y < x ↔ y < x') := by
  obtain ⟨s, hs⟩ := hx
  obtain ⟨s', hs'⟩ := hx'
  have lt_iff (a b : Float32) :
      a < b ↔ (a.toModel.unpack.compare b.toModel.unpack == some .lt) = true := by
    change decide ((a.toModel.unpack.compare b.toModel.unpack == some .lt) = true) = true ↔ _
    exact decide_eq_true_iff
  simp only [lt_iff, hs, hs']
  cases y.toModel.unpack with
  | notANumber | zero => exact ⟨Iff.rfl, Iff.rfl⟩
  | infinity t | finite t => cases t <;> exact ⟨Iff.rfl, Iff.rfl⟩

theorem IsZero.isNaN_eq_false (hx : IsZero x) : x.isNaN = false := by
  obtain ⟨s, hs⟩ := hx
  change x.toModel.unpack.isNaN = false
  rw [hs]
  rfl

theorem plainZero_mul (hx : plainZero x = plainZero x') (hy : plainZero y = plainZero y') :
    plainZero (x * y) = plainZero (x' * y') := by
  have hleft : plainZero (x * y) = plainZero (x' * y) := by
    rcases plainZero_eq_iff.mp hx with rfl | ⟨h, h'⟩
    · rfl
    · exact (h.plainZero_mul h' y).1
  have hright : plainZero (x' * y) = plainZero (x' * y') := by
    rcases plainZero_eq_iff.mp hy with rfl | ⟨h, h'⟩
    · rfl
    · exact (h.plainZero_mul h' x').2
  exact hleft.trans hright

theorem plainZero_div (hx : plainZero x = plainZero x') (y : Float32) :
    plainZero (x / y) = plainZero (x' / y) := by
  rcases plainZero_eq_iff.mp hx with rfl | ⟨h, h'⟩
  · rfl
  · exact h.plainZero_div h' y

theorem lt_iff_of_plainZero (hx : plainZero x = plainZero x') (hy : plainZero y = plainZero y') :
    x < y ↔ x' < y' := by
  have hleft : x < y ↔ x' < y := by
    rcases plainZero_eq_iff.mp hx with rfl | ⟨h, h'⟩
    · rfl
    · exact (h.lt_iff h' y).1
  have hright : x' < y ↔ x' < y' := by
    rcases plainZero_eq_iff.mp hy with rfl | ⟨h, h'⟩
    · rfl
    · exact (h.lt_iff h' x').2
  exact hleft.trans hright

theorem isNaN_eq_of_plainZero (hx : plainZero x = plainZero x') : x.isNaN = x'.isNaN := by
  rcases plainZero_eq_iff.mp hx with rfl | ⟨h, h'⟩
  · rfl
  · rw [h.isNaN_eq_false, h'.isNaN_eq_false]

theorem plainZero_maxPx (hx : plainZero x = plainZero x') (hy : plainZero y = plainZero y') :
    plainZero (maxPx x y) = plainZero (maxPx x' y') := by
  unfold maxPx
  rw [isNaN_eq_of_plainZero hx, isNaN_eq_of_plainZero hy]
  simp only [lt_iff_of_plainZero hy hx]
  split
  · exact hy
  · split
    · exact hx
    · split
      · exact hx
      · exact hy

end Arithmetic

end StyleEngine
