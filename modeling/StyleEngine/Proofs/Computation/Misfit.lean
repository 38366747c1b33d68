import StyleEngine.Proofs.Computation.Adjust
import StyleEngine.Proofs.Tree.Walk

/-!
# Declarations that do not fit

A declaration is rejected if its property does not accept its value. Neither the context nor the
style that is being made has a say. Of several declarations that do not fit, the first one to be
applied is reported, and declarations that choose the font are applied before all others.

## Main definitions

* `Declaration.Misfit`: the property of a declaration does not accept its value.
* `FirstMisfit`: the first declaration of a list that does not fit.

## Main statements

* `StyleContext.applyOne_eq_error_iff`, `StyleContext.applyAll_eq_error_iff`: what is reported where
  declarations are applied one after the other.
* `StyleContext.apply_rejects`: when no style is computed, and what is reported.
-/

namespace StyleEngine

/-- The property `p` of the declaration does not accept its value. -/
def Declaration.Misfit (d : Declaration) (p : Property) : Prop :=
  d.property = .known p ∧ d.value ≠ .inherit ∧ d.value ≠ .initial ∧ ¬p.Accepts d.value

/-- The first declaration that does not fit is one of `p`. -/
def FirstMisfit (ds : List Declaration) (p : Property) : Prop :=
  ∃ before d after, ds = before ++ d :: after ∧ (∀ b ∈ before, ∀ q, ¬b.Misfit q) ∧ d.Misfit p

namespace FirstMisfit

variable {d : Declaration} {ds ds' : List Declaration} {p : Property}

theorem not_nil : ¬FirstMisfit [] p := by
  simp [FirstMisfit]

/-- What follows a declaration has no say unless the declaration fits. -/
theorem cons_iff : FirstMisfit (d :: ds) p ↔
    d.Misfit p ∨ (∀ q, ¬d.Misfit q) ∧ FirstMisfit ds p :=
  exists_split_cons_iff

theorem append_iff : FirstMisfit (ds ++ ds') p ↔
    FirstMisfit ds p ∨ (∀ d ∈ ds, ∀ q, ¬d.Misfit q) ∧ FirstMisfit ds' p := by
  induction ds with
  | nil => simp [not_nil]
  | cons d ds ih =>
    rw [List.cons_append, cons_iff, cons_iff, ih, List.forall_mem_cons, and_or_left, or_assoc,
      and_assoc]

/-- If some declaration does not fit, then there is a first one. -/
theorem exists_iff : (∃ p, FirstMisfit ds p) ↔ ∃ d ∈ ds, ∃ p, d.Misfit p := by
  constructor
  · rintro ⟨p, before, d, after, rfl, -, hd⟩
    exact ⟨d, List.mem_append_right _ List.mem_cons_self, p, hd⟩
  · rintro ⟨d, hd, p, hp⟩
    induction ds with
    | nil => cases hd
    | cons d' ds ih =>
      by_cases hfits : ∀ q, ¬d'.Misfit q
      · rcases List.mem_cons.mp hd with rfl | hd
        · exact absurd hp (hfits p)
        · obtain ⟨q, hq⟩ := ih hd
          exact ⟨q, cons_iff.mpr (.inr ⟨hfits, hq⟩)⟩
      · obtain ⟨q, hq⟩ := not_forall.mp hfits
        exact ⟨q, cons_iff.mpr (.inl (not_not.mp hq))⟩

end FirstMisfit

namespace StyleContext

variable {c : StyleContext} {stamp : Stamp} {scale : LengthScale} {s : OwnStyle}
  {d : Declaration} {ds : List Declaration} {e : StyleError}

/-- A declaration is rejected if it does not fit, whatever the context. -/
theorem assignments_eq_error_iff :
    c.assignments scale d = .error e ↔ ∃ p, e = .misfit p ∧ d.Misfit p := by
  obtain ⟨property, value, important⟩ := d
  cases property with
  | unknown code => simp [assignments, Declaration.Misfit]
  | known p =>
    by_cases hcopied : value = .inherit ∨ value = .initial
    · rcases hcopied with rfl | rfl <;> simp [assignments, Declaration.Misfit]
    · have hmisfit : (∃ q, e = .misfit q ∧ Declaration.Misfit ⟨.known p, value, important⟩ q) ↔
          e = .misfit p ∧ ¬p.Accepts value := by
        obtain ⟨hinherit, hinitial⟩ := not_or.mp hcopied
        simp only [Declaration.Misfit, PropertyId.known.injEq]
        constructor
        · rintro ⟨q, rfl, rfl, -, -, hq⟩
          exact ⟨rfl, hq⟩
        · rintro ⟨rfl, hp⟩
          exact ⟨p, rfl, rfl, hinherit, hinitial, hp⟩
      obtain hcomputed := (or_assoc.mpr (assignments_cases value)).resolve_left hcopied
      rw [hmisfit, hcomputed, ← Property.compute?_eq_none_iff]
      cases p.compute? ⟨c.settings, c.inherited.own, scale⟩ value <;> simp [eq_comm]

/-- What some context accepts is what fits. -/
theorem declaration_fits_iff : d.Fits ↔ ∀ p, ¬d.Misfit p := by
  constructor
  · rintro ⟨c, scale, l, hl⟩ p hp
    have herror : c.assignments scale d = .error (.misfit p) :=
      assignments_eq_error_iff.mpr ⟨p, rfl, hp⟩
    rw [hl] at herror
    cases herror
  · intro hfits
    let c : StyleContext := ⟨.initial 0 16, .default, .approximate, none, none, true, 16⟩
    cases h : c.assignments ⟨16, 8, 16⟩ d with
    | ok l => exact ⟨_, _, l, h⟩
    | error e =>
      obtain ⟨p, -, hp⟩ := assignments_eq_error_iff.mp h
      exact absurd hp (hfits p)

/-- The style that has been made so far has no say either. -/
theorem applyOne_eq_error_iff :
    c.applyOne stamp scale s d = .error e ↔ ∃ p, e = .misfit p ∧ d.Misfit p := by
  have hassigned : c.assignments scale d = .error e ↔ ∃ p, e = .misfit p ∧ d.Misfit p :=
    assignments_eq_error_iff
  rw [← hassigned, applyOne]
  cases c.assignments scale d <;> simp [Except.map]

/-- Declarations up to the first that does not fit are applied. -/
theorem applyAll_eq_error_iff :
    c.applyAll stamp scale s ds = .error e ↔ ∃ p, e = .misfit p ∧ FirstMisfit ds p := by
  induction ds generalizing s with
  | nil => simp [applyAll, FirstMisfit.not_nil, pure, Except.pure]
  | cons d ds ih =>
    rw [applyAll, List.foldlM_cons]
    cases hone : c.applyOne stamp scale s d with
    | error e' =>
      obtain ⟨p, rfl, hd⟩ := applyOne_eq_error_iff.mp hone
      have honly (q : Property) : FirstMisfit (d :: ds) q ↔ p = q := by
        rw [FirstMisfit.cons_iff]
        constructor
        · rintro (hq | ⟨hfits, -⟩)
          · exact PropertyId.known.inj (hd.1.symm.trans hq.1)
          · exact absurd hd (hfits p)
        · rintro rfl
          exact .inl hd
      simp [bind, Except.bind, honly, eq_comm]
    | ok s' =>
      have hfits (q : Property) : ¬d.Misfit q := by
        intro hq
        have herror : c.applyOne stamp scale s d = .error (.misfit q) :=
          applyOne_eq_error_iff.mpr ⟨q, rfl, hq⟩
        rw [hone] at herror
        cases herror
      simp only [FirstMisfit.cons_iff, hfits, false_or, not_false_eq_true, implies_true, true_and]
      exact ih

/-- What has been applied fits. -/
theorem forall_not_misfit_of_applyAll {s' : OwnStyle} (h : c.applyAll stamp scale s ds = .ok s') :
    ∀ d ∈ ds, ∀ p, ¬d.Misfit p := by
  intro d hd p hp
  obtain ⟨q, hq⟩ := FirstMisfit.exists_iff.mpr ⟨d, hd, p, hp⟩
  have herror : c.applyAll stamp scale s ds = .error (.misfit q) :=
    applyAll_eq_error_iff.mpr ⟨q, rfl, hq⟩
  rw [h] at herror
  cases herror

/-- Declarations in the order in which they are applied. -/
def applicationOrder (ds : List Declaration) : List Declaration :=
  ds.filter (·.property.isFont) ++ ds.filter (!·.property.isFont)

theorem mem_applicationOrder : d ∈ applicationOrder ds ↔ d ∈ ds := by
  simp only [applicationOrder, List.mem_append, List.mem_filter, ← and_or_left]
  cases d.property.isFont <;> simp

/-- The first declaration that does not fit, in the order of application, is reported. -/
theorem assigned_eq_error_iff : c.assigned stamp ds = .error e ↔
    ∃ p, e = .misfit p ∧ FirstMisfit (applicationOrder ds) p := by
  rw [assigned, List.partition_eq_filter_filter, applicationOrder]
  simp only [FirstMisfit.append_iff]
  cases hfonts : c.applyAll stamp c.fontScale c.fresh.own (ds.filter (·.property.isFont)) with
  | error e' =>
    -- The fonts settle what is reported.
    obtain ⟨p, -, hp⟩ := applyAll_eq_error_iff.mp hfonts
    obtain ⟨d, hd, q, hq⟩ := FirstMisfit.exists_iff.mp ⟨p, hp⟩
    have hmisfit : ¬∀ d ∈ ds.filter (·.property.isFont), ∀ q, ¬d.Misfit q :=
      fun h => h d hd q hq
    simp only [hmisfit, false_and, or_false]
    rw [← applyAll_eq_error_iff, hfonts]
    exact Iff.rfl
  | ok own =>
    have hfit := forall_not_misfit_of_applyAll hfonts
    have hnone (p : Property) : ¬FirstMisfit (ds.filter (·.property.isFont)) p := by
      intro hp
      obtain ⟨d, hd, q, hq⟩ := FirstMisfit.exists_iff.mp ⟨p, hp⟩
      exact hfit d hd q hq
    simp only [hnone, false_or, and_iff_right hfit]
    exact applyAll_eq_error_iff

theorem apply_eq_error_iff : c.apply stamp ds = .error e ↔
    ∃ p, e = .misfit p ∧ FirstMisfit (applicationOrder ds) p := by
  rw [apply_eq, ← assigned_eq_error_iff]
  cases c.assigned stamp ds <;> simp [Except.map]

/-- One fixed table says which declarations are rejected. No style is computed if and only if some
declaration does not fit, and what is reported is the property of the first such declaration in the
order of application; each declaration is judged by itself, whatever has been made before it.
Percentages are accepted where the table has them, and in the sides of a clip rectangle and in
shadows. -/
theorem apply_rejects :
    (∀ (c : StyleContext) stamp ds,
      ((∃ e, c.apply stamp ds = .error e) ↔ ∃ d ∈ ds, ∃ p, d.Misfit p) ∧
      ∀ e, c.apply stamp ds = .error e ↔
        ∃ p, e = .misfit p ∧ FirstMisfit (applicationOrder ds) p) ∧
    (∀ (c : StyleContext) stamp scale s d e, c.applyOne stamp scale s d = .error e ↔
      ∃ p, e = .misfit p ∧ d.Misfit p) ∧
    (∀ p x, Property.Accepts p (.length ⟨x, .percent⟩) ↔ p ∈ Property.takingPercentages) ∧
    (∀ p x unit, unit ≠ .percent → (Property.Accepts p (.length ⟨x, unit⟩) ↔
      p ∈ Property.takingPercentages ∨ p ∈ Property.takingPlainLengths)) ∧
    (∀ p ∈ Property.takingPlainLengths, p ∉ Property.takingPercentages) ∧
    (∀ sides, Property.clip.Accepts (.rect sides)) ∧
    ∀ l, Property.textShadow.Accepts (.shadows l) ∧ Property.boxShadow.Accepts (.shadows l) := by
  refine ⟨fun c stamp ds => ⟨?_, fun e => apply_eq_error_iff⟩,
    fun c stamp scale s d e => applyOne_eq_error_iff, fun p x => Property.accepts_percentage_iff,
    fun p x unit => Property.accepts_length_iff, by decide, fun sides => ?_, fun l => ⟨?_, ?_⟩⟩
  · have hfirst : (∃ p, FirstMisfit (applicationOrder ds) p) ↔ ∃ d ∈ ds, ∃ p, d.Misfit p := by
      simp only [FirstMisfit.exists_iff, mem_applicationOrder]
    rw [← hfirst]
    constructor
    · rintro ⟨e, he⟩
      obtain ⟨p, -, hp⟩ := apply_eq_error_iff.mp he
      exact ⟨p, hp⟩
    · rintro ⟨p, hp⟩
      exact ⟨.misfit p, apply_eq_error_iff.mpr ⟨p, rfl, hp⟩⟩
  · exact List.mem_cons_of_mem _ List.mem_cons_self
  · exact List.mem_cons_of_mem _ List.mem_cons_self
  · exact List.mem_cons_of_mem _ List.mem_cons_self

end StyleContext

end StyleEngine
