import StyleEngine.Computation.Value
import StyleEngine.Proofs.Style.Plain

/-!
# Computed values up to the sign of a zero

A computed value hangs on the style that values are inherited from and on the scale of a font. If
these have one plain form, so has what is computed from them.

## Main statements

* `Property.plain_compute?`: computing respects plain forms.
* `Property.map_field_compute?`: the fields that are written.
-/

namespace StyleEngine

/-- The scale with plain lengths. -/
def LengthScale.plainForm (scale : LengthScale) : LengthScale :=
  ⟨plain scale.fontSize, plain scale.xHeight, plain scale.rootFontSize⟩

/-- The assignment of the plain value. -/
def Assignment.plainForm (a : Assignment) : Assignment :=
  ⟨a.field, a.field.plainValue a.value⟩

/-- Two answers that agree under a function are both missing, or both there and agree. -/
theorem eq_none_or_of_map_eq {α β : Type} {f : α → β} {o o' : Option α}
    (h : o.map f = o'.map f) :
    (o = none ∧ o' = none) ∨ ∃ a a', o = some a ∧ o' = some a' ∧ f a = f a' := by
  cases o <;> cases o' <;> simp_all

/-! ## Lengths -/

namespace LengthScale

variable {scale scale' : LengthScale}

section Plain

variable (h : scale.plainForm = scale'.plainForm)

include h

theorem plain_px? (l : SpecifiedLength) : (scale.px? l).map plain = (scale'.px? l).map plain := by
  have hfont : plainZero scale.fontSize = plainZero scale'.fontSize := congrArg fontSize h
  have hheight : plainZero scale.xHeight = plainZero scale'.xHeight := congrArg xHeight h
  have hroot : plainZero scale.rootFontSize = plainZero scale'.rootFontSize :=
    congrArg rootFontSize h
  unfold px?
  cases l.unit with
  | em => exact congrArg some (plainZero_mul rfl hfont)
  | ex => exact congrArg some (plainZero_mul rfl hheight)
  | rem => exact congrArg some (plainZero_mul rfl hroot)
  | _ => rfl

theorem plain_length (l : SpecifiedLength) : plain (scale.length l) = plain (scale'.length l) := by
  unfold length
  rcases eq_none_or_of_map_eq (plain_px? h l) with ⟨hs, hs'⟩ | ⟨px, px', hs, hs', hpx⟩
  · rw [hs, hs']
  · rw [hs, hs']
    exact congrArg Length.fixed hpx

theorem plain_pxOfFont (l : SpecifiedLength) :
    plain (scale.pxOfFont l) = plain (scale'.pxOfFont l) := by
  have hfont : plainZero scale.fontSize = plainZero scale'.fontSize := congrArg fontSize h
  unfold pxOfFont
  rcases eq_none_or_of_map_eq (plain_px? h l) with ⟨hs, hs'⟩ | ⟨px, px', hs, hs', hpx⟩
  · rw [hs, hs']
    exact plainZero_div (plainZero_mul hfont rfl) 100
  · rw [hs, hs']
    exact hpx

end Plain

end LengthScale

theorem FontSizeKeyword.plain_size (k : FontSizeKeyword) (medium : Float32)
    {parent parent' : Float32} (h : plainZero parent = plainZero parent') :
    plain (k.size medium parent) = plain (k.size medium parent') := by
  cases k with
  | larger => exact plainZero_mul h rfl
  | smaller => exact plainZero_div h _
  | _ => simp only [size]

/-! ## Kinds of value -/

namespace Value

section Plain

variable {scale scale' : LengthScale} (h : scale.plainForm = scale'.plainForm) (v : Value)

include h

theorem plain_length? : (v.length? scale).map plain = (v.length? scale').map plain := by
  cases v with
  | length l => exact congrArg some (LengthScale.plain_length h l)
  | _ => rfl

theorem plain_px? : (v.px? scale).map plain = (v.px? scale').map plain := by
  cases v with
  | length l => exact LengthScale.plain_px? h l
  | _ => rfl

theorem plain_width? : (v.width? scale).map plain = (v.width? scale').map plain := by
  unfold width?
  rcases eq_none_or_of_map_eq (plain_px? h v) with ⟨hs, hs'⟩ | ⟨px, px', hs, hs', hpx⟩
  · rw [hs, hs']
  · rw [hs, hs']
    exact congrArg some (plainZero_maxPx hpx rfl)

theorem plain_spacing? : (v.spacing? scale).map plain = (v.spacing? scale').map plain := by
  cases v with
  | length l => exact LengthScale.plain_px? h l
  | _ => rfl

theorem plain_shadows? : (v.shadows? scale).map plain = (v.shadows? scale').map plain := by
  have getD (l : SpecifiedLength) :
      plain ((scale.px? l).getD 0) = plain ((scale'.px? l).getD 0) := by
    rcases eq_none_or_of_map_eq (LengthScale.plain_px? h l) with
      ⟨hs, hs'⟩ | ⟨px, px', hs, hs', hpx⟩
    · rw [hs, hs']
    · rw [hs, hs']
      exact hpx
  cases v with
  | shadows l =>
    have hshadow (s : SpecifiedShadow) :
        plain (⟨(scale.px? s.x).getD 0, (scale.px? s.y).getD 0, (scale.px? s.blur).getD 0,
          s.color⟩ : Shadow) =
        plain (⟨(scale'.px? s.x).getD 0, (scale'.px? s.y).getD 0, (scale'.px? s.blur).getD 0,
          s.color⟩ : Shadow) := by
      change Shadow.mk _ _ _ _ = Shadow.mk _ _ _ _
      rw [getD, getD, getD]
    change some ((l.map _).map plain) = some ((l.map _).map plain)
    rw [List.map_map, List.map_map]
    exact congrArg some (List.map_congr_left fun s _ => hshadow s)
  | _ => rfl

theorem plain_clip? : (v.clip? scale).map plain = (v.clip? scale').map plain := by
  have hside (l : Option SpecifiedLength) :
      plain (l.elim Length.auto scale.length) = plain (l.elim Length.auto scale'.length) := by
    cases l with
    | none => rfl
    | some l => exact LengthScale.plain_length h l
  cases v with
  | rect sides =>
    change some (some (Edges.mk _ _ _ _)) = some (some (Edges.mk _ _ _ _))
    rw [hside, hside, hside, hside]
  | _ => rfl

theorem plain_verticalAlign? :
    (v.verticalAlign? scale).map plain = (v.verticalAlign? scale').map plain := by
  cases v with
  | length l =>
    exact congrArg (fun l => some (VerticalAlign.length l)) (LengthScale.plain_length h l)
  | _ => rfl

theorem plain_lineHeight? :
    (v.lineHeight? scale).map plain = (v.lineHeight? scale').map plain := by
  cases v with
  | length l =>
    exact congrArg (fun px => some (LineHeight.fixed px)) (LengthScale.plain_pxOfFont h l)
  | _ => rfl

theorem plain_fontSize? (medium : Float32) :
    (v.fontSize? medium scale).map plain = (v.fontSize? medium scale').map plain := by
  cases v with
  | length l => exact congrArg some (LengthScale.plain_pxOfFont h l)
  | fontSize k => exact congrArg some (k.plain_size medium (congrArg LengthScale.fontSize h))
  | _ => rfl

end Plain

end Value

/-! ## Properties -/

/-- Settings that font sizes are computed alike under. -/
structure Settings.SameFonts (s s' : Settings) : Prop where
  default : s.defaultFontSize = s'.defaultFontSize
  minimum : s.minimumFontSize = s'.minimumFontSize

theorem Settings.SameFonts.of_eq {s s' : Settings} (h : s = s') : s.SameFonts s' :=
  h ▸ ⟨rfl, rfl⟩

namespace Property

/-- The assignments of the plain values. -/
abbrev plainAll (l : List Assignment) : List Assignment :=
  l.map Assignment.plainForm

theorem plain_put {f : Field} {v v' : Option f.Value}
    (h : v.map f.plainValue = v'.map f.plainValue) :
    (put f v).map plainAll = (put f v').map plainAll := by
  rcases eq_none_or_of_map_eq h with ⟨rfl, rfl⟩ | ⟨w, w', rfl, rfl, hw⟩
  · rfl
  · change some [Assignment.mk f (f.plainValue w)] = some [Assignment.mk f (f.plainValue w')]
    rw [hw]

/-- The stored values of a property show in the plain form. -/
theorem plain_assignmentsFrom (p : Property) {s s' : OwnStyle} (h : s.plainForm = s'.plainForm) :
    plainAll (p.assignmentsFrom s) = plainAll (p.assignmentsFrom s') := by
  rw [plainAll, plainAll, assignmentsFrom, assignmentsFrom, List.map_map, List.map_map]
  refine List.map_congr_left fun f _ => ?_
  change Assignment.mk f (f.plainValue (s.get f)) = Assignment.mk f (f.plainValue (s'.get f))
  rw [← OwnStyle.get_plainForm, h, OwnStyle.get_plainForm]

/-- What a value comes to shows in the plain forms of the inherited style and of the scale. -/
theorem plain_compute? (settings : Settings) {s s' : OwnStyle} {scale scale' : LengthScale}
    (hs : s.plainForm = s'.plainForm) (h : scale.plainForm = scale'.plainForm) (p : Property)
    (v : Value) :
    (p.compute? ⟨settings, s, scale⟩ v).map plainAll =
      (p.compute? ⟨settings, s', scale'⟩ v).map plainAll := by
  have hcolor : s.typography.value.color = s'.typography.value.color := by
    have := congrArg (·.typography.value.color) hs
    exact this
  have hweight : s.typography.value.font.weight = s'.typography.value.font.weight := by
    have := congrArg (·.typography.value.font.weight) hs
    exact this
  cases p with
  | color =>
    refine plain_put ?_
    rw [hcolor]
  | fontWeight =>
    refine plain_put ?_
    rw [hweight]
  | fontSize =>
    change (Option.map _ _).map plainAll = (Option.map _ _).map plainAll
    rcases eq_none_or_of_map_eq (v.plain_fontSize? h settings.defaultFontSize) with
      ⟨hv, hv'⟩ | ⟨px, px', hv, hv', hpx⟩
    · rw [hv, hv']
    · rw [hv, hv']
      have hclamped : plain (settings.clampFontSize px) = plain (settings.clampFontSize px') :=
        plainZero_maxPx hpx rfl
      change some [Assignment.mk (.typography .specifiedFontSize) (plain px),
          Assignment.mk (.typography .fontSize) (plain (settings.clampFontSize px))] =
        some [Assignment.mk (.typography .specifiedFontSize) (plain px'),
          Assignment.mk (.typography .fontSize) (plain (settings.clampFontSize px'))]
      rw [hpx, hclamped]
  | lineHeight => exact plain_put (v.plain_lineHeight? h)
  | letterSpacing | wordSpacing => exact plain_put (v.plain_spacing? h)
  | textIndent =>
    cases v with
    | length l => exact plain_put (congrArg some (LengthScale.plain_length h l))
    | _ => rfl
  | textShadow | boxShadow => exact plain_put (v.plain_shadows? h)
  | borderSpacingHorizontal | borderSpacingVertical => exact plain_put (v.plain_px? h)
  | width | height | minWidth | minHeight | maxWidth | maxHeight | offset | margin =>
    exact plain_put (v.plain_length? h)
  | verticalAlign => exact plain_put (v.plain_verticalAlign? h)
  | padding side =>
    cases v with
    | length l => exact plain_put (congrArg some (LengthScale.plain_length h l))
    | _ => rfl
  | borderWidth | outlineWidth => exact plain_put (v.plain_width? h)
  | clip => exact plain_put (v.plain_clip? h)
  | _ => rfl

/-- A value hangs on the settings for fonts only. -/
theorem compute?_congr_settings {settings settings' : Settings} (h : settings.SameFonts settings')
    (s : OwnStyle) (scale : LengthScale) (p : Property) (v : Value) :
    p.compute? ⟨settings, s, scale⟩ v = p.compute? ⟨settings', s, scale⟩ v := by
  cases p with
  | fontSize => simp only [compute?, Settings.clampFontSize, h.default, h.minimum]
  | _ => rfl

/-! ## What is written -/

theorem map_field_put {f : Field} {v : Option f.Value} {l : List Assignment}
    (h : put f v = some l) : l.map Assignment.field = [f] := by
  obtain ⟨w, -, rfl⟩ := Option.map_eq_some_iff.mp h
  rfl

/-- A value is written to the fields that the property stands for. -/
theorem map_field_compute? {c : ValueContext} {p : Property} {v : Value} {l : List Assignment}
    (h : p.compute? c v = some l) : l.map Assignment.field = p.fields := by
  cases p with
  | fontSize =>
    obtain ⟨px, -, rfl⟩ := Option.map_eq_some_iff.mp h
    rfl
  | _ => exact map_field_put h

/-- No property says which pseudo-element a style is for. -/
theorem styleType_not_mem_fields (p : Property) : .box .styleType ∉ p.fields := by
  cases p <;> simp [fields]

/-- No property says which lines are in effect. -/
theorem decorationsInEffect_not_mem_fields (p : Property) :
    .inherited .decorationsInEffect ∉ p.fields := by
  cases p <;> simp [fields]

end Property

end StyleEngine
