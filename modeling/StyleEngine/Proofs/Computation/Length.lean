import StyleEngine.Proofs.Computation.Winner

/-!
# What lengths are converted at

The lengths in the declaration that wins are converted at a font and at a font size of the root.
Adjusting the style leaves them alone, so what they come to is stored.

## Main definitions

* `Value.lengths`: the lengths in a value.
* `ComputedStyle.Converts`: a style that stores what the lengths of a property come to.

## Main statements

* `StyleContext.converts_of_apply`: applying declarations gives such a style.
-/

namespace StyleEngine

/-- The lengths in a value. -/
def Value.lengths : Value → List SpecifiedLength
  | length l => [l]
  | shadows l => l.flatMap fun s => [s.x, s.y, s.blur]
  | rect sides => [sides.top, sides.right, sides.bottom, sides.left].reduceOption
  | _ => []

/-- Whether adjusting a style may write to a field. -/
def Field.isAdjusted : Field → Bool
  | .sizing .zIndex | .inherited .decorationsInEffect | .box _ => true
  | _ => false

/-- What a field holds and a value that it holds have one plain form. -/
theorem OwnStyle.Holds.plainValue_eq {s : OwnStyle} {f : Field} {v : f.Value} (h : s.Holds f v) :
    f.plainValue (s.get f) = f.plainValue v := by
  rcases h with h | h
  · rw [h]
  · cases f with
    | inherited f => cases f <;> exact eq_of_beq h
    | box f => cases f <;> exact eq_of_beq h
    | _ => exact Plain.plain_eq_of_beq h

theorem OwnStyle.get_adjust (stamp : Stamp) (isRoot : Bool) (s : OwnStyle) {f : Field}
    (h : f.isAdjusted = false) : (s.adjust stamp isRoot).get f = s.get f := by
  have hlevel (s : OwnStyle) : (s.dropLevel stamp).get f = s.get f := by
    unfold OwnStyle.dropLevel
    split
    · have hne : f ≠ .sizing .zIndex := fun heq => by rw [heq] at h; cases h
      exact OwnStyle.get_set_of_ne stamp s none hne
    · rfl
  have hbox (s : OwnStyle) (k : BoxKeywords) : { s with box := k }.get f = s.get f := by
    cases f with
    | box f => cases h
    | _ => rfl
  have hlines (s : OwnStyle) : s.passDecorations.get f = s.get f := by
    unfold OwnStyle.passDecorations
    cases f with
    | inherited f => cases f <;> first | rfl | cases h
    | _ => rfl
  exact (hbox _ _).trans ((hlines _).trans ((hlevel _).trans (hbox _ _)))

/-- What takes a length is not adjusted. -/
theorem Property.isAdjusted_eq_false {c : ValueContext} {p : Property} {v : Value}
    {l : List Assignment} (h : p.compute? c v = some l) (hv : v.lengths ≠ []) {f : Field}
    (hf : f ∈ p.fields) : f.isAdjusted = false := by
  cases p with
  | display | position | float | clear | overflowX | overflowY | tableLayout | zIndex =>
    cases v <;> first | exact absurd rfl hv | cases h
  | fontSize =>
    rcases List.mem_pair.mp hf with rfl | rfl <;> rfl
  | _ =>
    obtain rfl := List.mem_singleton.mp hf
    rfl

theorem Property.isAdjusted_eq_false_of_isFont {p : Property} (hp : p.isFont = true) {f : Field}
    (hf : f ∈ p.fields) : f.isAdjusted = false := by
  cases p with
  | fontFamily | fontStyle | fontVariant | fontWeight =>
    obtain rfl := List.mem_singleton.mp hf
    rfl
  | fontSize => rcases List.mem_pair.mp hf with rfl | rfl <;> rfl
  | _ => cases hp

/-- The style stores what the lengths of a property come to, up to the signs of zeros: those of the
declaration that wins, at the font of the style or, if the property chooses the font, at the font
that is inherited, and at the given font size of the root. -/
def ComputedStyle.Converts (style inherited : ComputedStyle) (settings : Settings)
    (metrics : FontMetrics) (rootFontSize : Float32) (ds : List Declaration) (p : Property) :
    Prop :=
  ∀ d, Declaration.winner? p ds = some d → d.value.lengths ≠ [] →
    let font := if p.isFont then inherited.font else style.font
    let scale : LengthScale := ⟨font.size, metrics font, rootFontSize⟩
    (p.compute? ⟨settings, inherited.own, scale⟩ d.value).map Property.plainAll =
      some (Property.plainAll (p.assignmentsFrom style.own))

/-- It is the styles by themselves that store, not those of their pseudo-elements. -/
theorem ComputedStyle.Converts.of_own {style style' inherited inherited' : ComputedStyle}
    {settings : Settings} {metrics : FontMetrics} {rootFontSize : Float32}
    {ds : List Declaration} {p : Property}
    (h : style.Converts inherited settings metrics rootFontSize ds p)
    (hstyle : style'.own = style.own) (hinherited : inherited'.own = inherited.own) :
    style'.Converts inherited' settings metrics rootFontSize ds p := by
  unfold Converts ComputedStyle.font at *
  rw [hstyle, hinherited]
  exact h

/-- Of the properties that choose the font, the size alone hangs on lengths. -/
theorem ComputedStyle.Converts.of_isFont {style inherited : ComputedStyle} {settings : Settings}
    {metrics : FontMetrics} {rootFontSize : Float32} {ds : List Declaration} {p : Property}
    (h : style.Converts inherited settings metrics rootFontSize ds p) (hfont : p.isFont = true)
    (hne : p ≠ .fontSize) (rootFontSize' : Float32) :
    style.Converts inherited settings metrics rootFontSize' ds p := by
  intro d hd hlengths
  have hsame := h d hd hlengths
  cases p with
  | fontSize => exact absurd rfl hne
  | fontFamily | fontStyle | fontVariant | fontWeight => exact hsame
  | _ => cases hfont

/-- Whether a style stores what lengths come to shows in plain forms. -/
theorem ComputedStyle.Converts.congr {style style' inherited inherited' : ComputedStyle}
    {settings : Settings} {metrics : FontMetrics} {rootFontSize rootFontSize' : Float32}
    {ds : List Declaration} {p : Property}
    (h : style.Converts inherited settings metrics rootFontSize ds p) (hfair : metrics.Fair)
    (hstyle : style.plainForm = style'.plainForm)
    (hinherited : inherited.plainForm = inherited'.plainForm)
    (hsize : plain rootFontSize = plain rootFontSize') :
    style'.Converts inherited' settings metrics rootFontSize' ds p := by
  intro d hd hlengths font' scale'
  have hown := ComputedStyle.own_eq_of_plainForm hstyle
  have hown' := ComputedStyle.own_eq_of_plainForm hinherited
  let font := if p.isFont then inherited.font else style.font
  have hfont : font.plainForm = font'.plainForm := by
    unfold font font'
    split
    · exact OwnStyle.font_eq_of_plainForm hown'
    · exact OwnStyle.font_eq_of_plainForm hown
  let scale : LengthScale := ⟨font.size, metrics font, rootFontSize⟩
  have hscale : scale.plainForm = scale'.plainForm := by
    have hfontSize : plain font.size = plain font'.size := congrArg Font.size hfont
    simp only [LengthScale.plainForm, scale, scale', hfontSize, hfair hfont, hsize]
  calc (p.compute? ⟨settings, inherited'.own, scale'⟩ d.value).map Property.plainAll
      = (p.compute? ⟨settings, inherited.own, scale⟩ d.value).map Property.plainAll :=
        (p.plain_compute? settings hown' hscale d.value).symm
    _ = some (Property.plainAll (p.assignmentsFrom style.own)) := h d hd hlengths
    _ = some (Property.plainAll (p.assignmentsFrom style'.own)) :=
        congrArg some (p.plain_assignmentsFrom hown)

/-- What a width in units of the root's font size comes to. -/
theorem ComputedStyle.Converts.width_rem {style inherited : ComputedStyle} {settings : Settings}
    {metrics : FontMetrics} {rootFontSize x : Float32} {ds : List Declaration} {d : Declaration}
    (h : style.Converts inherited settings metrics rootFontSize ds .width)
    (hd : Declaration.winner? .width ds = some d) (hvalue : d.value = .length ⟨x, .rem⟩) :
    plain style.own.sizing.value.width = .fixed (plainZero (x * rootFontSize)) := by
  have hsame := h d hd (by simp [hvalue, Value.lengths])
  rw [hvalue] at hsame
  have hassignment := (List.cons.inj (Option.some.inj hsame)).1
  exact (eq_of_heq (Assignment.mk.inj hassignment).2).symm

/-- Styles of one plain form have pseudo-elements of one plain form. -/
theorem ComputedStyle.exists_mem_pseudos_of_plainForm {style style' : ComputedStyle}
    (h : style.plainForm = style'.plainForm) {entry : PseudoElement × ComputedStyle}
    (hentry : entry ∈ style.pseudos) :
    ∃ entry' ∈ style'.pseudos, entry'.1 = entry.1 ∧ entry'.2.plainForm = entry.2.plainForm := by
  have hmem : (entry.1, entry.2.plainForm) ∈
      style.pseudos.map fun entry => (entry.1, entry.2.plainForm) := List.mem_map_of_mem hentry
  rw [ComputedStyle.pseudos_eq_of_plainForm h] at hmem
  obtain ⟨entry', hmem', heq⟩ := List.mem_map.mp hmem
  obtain ⟨hfst, hsnd⟩ := Prod.mk.inj heq
  exact ⟨entry', hmem', hfst, hsnd⟩

namespace StyleContext

variable {c : StyleContext} {stamp : Stamp} {ds : List Declaration}

/-- Declarations that fit come to a style that stores what lengths come to. At the root they are
converted at the font size that is being computed, except in that size itself. -/
theorem converts_of_apply (hfits : ∀ d ∈ ds, d.Fits) (hinitial : c.initial.styleType = none)
    {style : ComputedStyle} (h : c.apply stamp ds = .ok style) (p : Property) :
    style.Converts c.inherited c.settings c.metrics
      (if c.isRoot && !p.isFont then style.fontSize else c.rootFontSize) ds p := by
  obtain ⟨s, hassembled, happly⟩ := exists_assembled hfits c hinitial stamp
  have hown : style.own = s.adjust stamp c.isRoot :=
    congrArg ComputedStyle.own (Except.ok.inj (h.symm.trans happly))
  have hfont : style.font = s.typography.value.font := by
    rw [ComputedStyle.font, hown]
    refine OwnStyle.font_eq_of_get fun q hq f hf => OwnStyle.get_adjust stamp c.isRoot s ?_
    exact Property.isAdjusted_eq_false_of_isFont hq hf
  intro d hd hlengths font scale
  have hinherit : d.value ≠ .inherit := fun heq => hlengths (by rw [heq]; rfl)
  have hreset : d.value ≠ .initial := fun heq => hlengths (by rw [heq]; rfl)
  obtain ⟨l, hl, hfields, hholds⟩ := hassembled.computes p d hd hinherit hreset
  have hscale : c.scaleFor s p = scale := by
    unfold scale font ComputedStyle.fontSize
    rw [hfont, scaleFor, ownScale, fontScale, StyleContext.scale, StyleContext.scale]
    cases p.isFont <;> cases c.isRoot <;> rfl
  rw [← hscale, hl, Option.map_some, Property.assignmentsFrom, ← hfields]
  simp only [Property.plainAll, List.map_map]
  refine congrArg some (List.map_congr_left fun a ha => ?_)
  have hfield : a.field ∈ p.fields := hfields ▸ List.mem_map_of_mem ha
  have hstored : style.own.get a.field = s.get a.field := by
    rw [hown]
    exact OwnStyle.get_adjust stamp c.isRoot s (Property.isAdjusted_eq_false hl hlengths hfield)
  simp only [Function.comp_apply, Assignment.plainForm, hstored, (hholds a ha).plainValue_eq]

end StyleContext

end StyleEngine
