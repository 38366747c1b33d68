import StyleEngine.Proofs.Computation.Value
import StyleEngine.Property.Declaration

/-!
# Declared values up to the sign of a zero

Equal declarations may differ in the signs of zeros, and in nothing else. What a property makes of a
value keeps such a difference, and adds none: computed from equal values, the assignments have one
plain form.

## Main definitions

* `Value.plainForm`, `Declaration.plainForm`: what is declared, with plain numbers.

## Main statements

* `Declaration.plainForm_eq_of_beq`: equal declarations have one plain form.
* `Property.plain_compute?_plainForm`: a value and its plain form are not told apart.
-/

namespace StyleEngine

/-! ## Lengths and shadows -/

theorem SpecifiedLength.beq_iff {l m : SpecifiedLength} :
    (l == m) = true ↔ (l.value == m.value) = true ∧ l.unit = m.unit := by
  have hbeq : (l == m) = (l.value == m.value && l.unit == m.unit) := rfl
  rw [hbeq]
  simp only [Bool.and_eq_true, beq_iff_eq]

instance : Plain SpecifiedLength where
  plain l := ⟨plain l.value, l.unit⟩
  plain_eq_of_beq h := by
    obtain ⟨hvalue, hunit⟩ := SpecifiedLength.beq_iff.mp h
    rw [Plain.plain_eq_of_beq hvalue, hunit]
  beq_of_plain_eq h hself := by
    obtain ⟨hvalue, hunit⟩ := SpecifiedLength.mk.inj h
    exact SpecifiedLength.beq_iff.mpr
      ⟨Plain.beq_of_plain_eq hvalue (SpecifiedLength.beq_iff.mp hself).1, hunit⟩
  beq_self_of_plain_eq h hself := by
    obtain ⟨hvalue, -⟩ := SpecifiedLength.mk.inj h
    exact SpecifiedLength.beq_iff.mpr
      ⟨Plain.beq_self_of_plain_eq hvalue (SpecifiedLength.beq_iff.mp hself).1, rfl⟩

theorem SpecifiedShadow.beq_iff {s t : SpecifiedShadow} :
    (s == t) = true ↔ (s.x == t.x) = true ∧ (s.y == t.y) = true ∧ (s.blur == t.blur) = true ∧
      s.color = t.color := by
  have hbeq : (s == t) =
      (s.x == t.x && (s.y == t.y && (s.blur == t.blur && s.color == t.color))) := rfl
  rw [hbeq]
  simp only [Bool.and_eq_true, beq_iff_eq]

instance : Plain SpecifiedShadow where
  plain s := ⟨plain s.x, plain s.y, plain s.blur, s.color⟩
  plain_eq_of_beq h := by
    obtain ⟨hx, hy, hblur, hcolor⟩ := SpecifiedShadow.beq_iff.mp h
    simp only [Plain.plain_eq_of_beq hx, Plain.plain_eq_of_beq hy, Plain.plain_eq_of_beq hblur,
      hcolor]
  beq_of_plain_eq h hself := by
    obtain ⟨hx, hy, hblur, -⟩ := SpecifiedShadow.beq_iff.mp hself
    obtain ⟨hx', hy', hblur', hcolor⟩ := SpecifiedShadow.mk.inj h
    exact SpecifiedShadow.beq_iff.mpr ⟨Plain.beq_of_plain_eq hx' hx, Plain.beq_of_plain_eq hy' hy,
      Plain.beq_of_plain_eq hblur' hblur, hcolor⟩
  beq_self_of_plain_eq h hself := by
    obtain ⟨hx, hy, hblur, -⟩ := SpecifiedShadow.beq_iff.mp hself
    obtain ⟨hx', hy', hblur', -⟩ := SpecifiedShadow.mk.inj h
    exact SpecifiedShadow.beq_iff.mpr ⟨Plain.beq_self_of_plain_eq hx' hx,
      Plain.beq_self_of_plain_eq hy' hy, Plain.beq_self_of_plain_eq hblur' hblur, rfl⟩

/-! ## Values and declarations -/

/-- The value with plain numbers. -/
def Value.plainForm : Value → Value
  | .length l => .length (plain l)
  | .number x => .number (plain x)
  | .shadows l => .shadows (plain l)
  | .rect sides => .rect (plain sides)
  | v => v

/-- Equal values have one plain form. -/
theorem Value.plainForm_eq_of_beq {v w : Value} (h : (v == w) = true) :
    v.plainForm = w.plainForm := by
  change instBEqValue.beq v w = true at h
  unfold instBEqValue.beq at h
  split at h
  · split at h
    case length => exact congrArg Value.length (Plain.plain_eq_of_beq h)
    case number => exact congrArg Value.number (Plain.plain_eq_of_beq h)
    case shadows => exact congrArg Value.shadows (Plain.plain_eq_of_beq h)
    case rect => exact congrArg Value.rect (Plain.plain_eq_of_beq h)
    -- The other values hold no number that is told apart from an equal one.
    all_goals first
      | rfl
      | rw [eq_of_beq h]
  · cases h

/-- The declaration of the plain value. -/
def Declaration.plainForm (d : Declaration) : Declaration :=
  { d with value := d.value.plainForm }

/-- Equal declarations have one plain form. -/
theorem Declaration.plainForm_eq_of_beq {d d' : Declaration} (h : (d == d') = true) :
    d.plainForm = d'.plainForm := by
  have hbeq : (d == d') =
      (d.property == d'.property && (d.value == d'.value && d.important == d'.important)) := rfl
  rw [hbeq] at h
  simp only [Bool.and_eq_true, beq_iff_eq] at h
  obtain ⟨hproperty, hvalue, himportant⟩ := h
  rw [plainForm, plainForm, hproperty, Value.plainForm_eq_of_beq hvalue, himportant]

/-- Equal blocks hold declarations of equal plain forms. -/
theorem DeclarationBlock.map_plainForm_eq_of_beq {b b' : DeclarationBlock} (h : (b == b') = true) :
    b.map Declaration.plainForm = b'.map Declaration.plainForm := by
  induction b generalizing b' with
  | nil =>
    cases b' with
    | nil => rfl
    | cons d b' => cases h
  | cons d b ih =>
    cases b' with
    | nil => cases h
    | cons d' b' =>
      rw [List.cons_beq_cons, Bool.and_eq_true] at h
      rw [List.map_cons, List.map_cons, Declaration.plainForm_eq_of_beq h.1, ih h.2]

/-! ## What values come to -/

namespace LengthScale

variable (scale : LengthScale) (l : SpecifiedLength)

theorem plain_px?_plain : (scale.px? (plain l)).map plain = (scale.px? l).map plain := by
  have hvalue : plainZero (plainZero l.value) = plainZero l.value := plainZero_plainZero _
  obtain ⟨value, unit⟩ := l
  cases unit with
  | percent => rfl
  | px => exact congrArg some hvalue
  | em | ex | rem | inch => exact congrArg some (plainZero_mul hvalue rfl)
  | pt | pc | cm | mm => exact congrArg some (plainZero_div (plainZero_mul hvalue rfl) _)

theorem plain_length_plain : plain (scale.length (plain l)) = plain (scale.length l) := by
  unfold length
  rcases eq_none_or_of_map_eq (plain_px?_plain scale l) with ⟨hs, hs'⟩ | ⟨px, px', hs, hs', hpx⟩
  · rw [hs, hs']
    exact congrArg Length.percent (plainZero_plainZero l.value)
  · rw [hs, hs']
    exact congrArg Length.fixed hpx

theorem plain_pxOfFont_plain : plain (scale.pxOfFont (plain l)) = plain (scale.pxOfFont l) := by
  unfold pxOfFont
  rcases eq_none_or_of_map_eq (plain_px?_plain scale l) with ⟨hs, hs'⟩ | ⟨px, px', hs, hs', hpx⟩
  · rw [hs, hs']
    exact plainZero_div (plainZero_mul rfl (plainZero_plainZero l.value)) 100
  · rw [hs, hs']
    exact hpx

theorem plain_getD_px?_plain :
    plain ((scale.px? (plain l)).getD 0) = plain ((scale.px? l).getD 0) := by
  rcases eq_none_or_of_map_eq (plain_px?_plain scale l) with ⟨hs, hs'⟩ | ⟨px, px', hs, hs', hpx⟩
  · rw [hs, hs']
  · rw [hs, hs']
    exact hpx

end LengthScale

theorem plainZero_clampUnit {x y : Float32} (h : plainZero x = plainZero y) :
    plainZero (clampUnit x) = plainZero (clampUnit y) := by
  unfold clampUnit
  simp only [lt_iff_of_plainZero h rfl, lt_iff_of_plainZero rfl h]
  split
  · rfl
  · split
    · rfl
    · exact h

namespace Value

variable (scale : LengthScale)

theorem plain_shadows?_plain (l : List SpecifiedShadow) :
    ((shadows (plain l)).shadows? scale).map plain = ((shadows l).shadows? scale).map plain := by
  change some (((l.map plain).map _).map plain) = some ((l.map _).map plain)
  rw [List.map_map, List.map_map, List.map_map]
  refine congrArg some (List.map_congr_left fun s _ => ?_)
  change Shadow.mk _ _ _ _ = Shadow.mk _ _ _ _
  rw [Shadow.mk.injEq]
  exact ⟨scale.plain_getD_px?_plain s.x, scale.plain_getD_px?_plain s.y,
    scale.plain_getD_px?_plain s.blur, rfl⟩

theorem plain_clip?_plain (sides : Edges (Option SpecifiedLength)) :
    ((rect (plain sides)).clip? scale).map plain = ((rect sides).clip? scale).map plain := by
  have hside (l : Option SpecifiedLength) :
      plain ((plain l).elim Length.auto scale.length) =
        plain (l.elim Length.auto scale.length) := by
    cases l with
    | none => rfl
    | some l => exact scale.plain_length_plain l
  change some (some (Edges.mk _ _ _ _)) = some (some (Edges.mk _ _ _ _))
  rw [Option.some_inj, Option.some_inj, Edges.mk.injEq]
  exact ⟨hside sides.top, hside sides.right, hside sides.bottom, hside sides.left⟩

end Value

/-- A property does not tell a value from its plain form. -/
theorem Property.plain_compute?_plainForm (c : ValueContext) (p : Property) (v : Value) :
    (p.compute? c v.plainForm).map plainAll = (p.compute? c v).map plainAll := by
  cases v with
  | length l =>
    have hpx := c.scale.plain_px?_plain l
    have hlength := congrArg some (c.scale.plain_length_plain l)
    have hfont := c.scale.plain_pxOfFont_plain l
    cases p with
    | fontSize =>
      have hclamped : plain (c.settings.clampFontSize (c.scale.pxOfFont (plain l))) =
          plain (c.settings.clampFontSize (c.scale.pxOfFont l)) :=
        plainZero_maxPx hfont rfl
      change some [Assignment.mk (.typography .specifiedFontSize) (plain _),
          Assignment.mk (.typography .fontSize) (plain _)] =
        some [Assignment.mk (.typography .specifiedFontSize) (plain _),
          Assignment.mk (.typography .fontSize) (plain _)]
      rw [hfont, hclamped]
    | lineHeight => exact plain_put (congrArg (fun px => some (LineHeight.fixed px)) hfont)
    | letterSpacing | wordSpacing | borderSpacingHorizontal | borderSpacingVertical =>
      exact plain_put hpx
    | textIndent | width | height | minWidth | minHeight | maxWidth | maxHeight | offset | margin
    | padding => exact plain_put hlength
    | verticalAlign => exact plain_put (congrArg (Option.map VerticalAlign.length) hlength)
    | borderWidth | outlineWidth =>
      refine plain_put ?_
      change ((c.scale.px? (plain l)).map (maxPx · 0)).map plain =
        ((c.scale.px? l).map (maxPx · 0)).map plain
      rcases eq_none_or_of_map_eq hpx with ⟨hs, hs'⟩ | ⟨px, px', hs, hs', hpx⟩
      · rw [hs, hs']
      · rw [hs, hs']
        exact congrArg some (plainZero_maxPx hpx rfl)
    | _ => rfl
  | number x =>
    have hx : plain (plain x) = plain x := plainZero_plainZero x
    cases p with
    | lineHeight => exact plain_put (congrArg (fun x => some (LineHeight.number x)) hx)
    | opacity => exact plain_put (congrArg some (plainZero_clampUnit hx))
    | _ => rfl
  | shadows l =>
    cases p with
    | textShadow | boxShadow => exact plain_put (Value.plain_shadows?_plain c.scale l)
    | _ => rfl
  | rect sides =>
    cases p with
    | clip => exact plain_put (Value.plain_clip?_plain c.scale sides)
    | _ => rfl
  | _ => rfl

end StyleEngine
