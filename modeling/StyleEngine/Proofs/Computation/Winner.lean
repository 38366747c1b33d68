import StyleEngine.Proofs.Computation.Apply

/-!
# The declarations that win

A style is made property by property. Of the declarations of a property the last one counts, and
its value is computed from what is inherited and, unless the property chooses the font, from the
font that the style ends up with. A property without a declaration is inherited or initial. Which
other properties are declared, and in which order, makes no difference.

## Main definitions

* `Field.property?`: the property that a field belongs to.
* `Declaration.winner?`: the last declaration of a property.
* `StyleContext.Assembled`: styles that hold what the winners come to.

## Main statements

* `StyleContext.exists_assembled`: applying declarations gives such a style, adjusted.
-/

namespace StyleEngine

/-! ## Fields and properties -/

namespace Field

/-- The property that a field belongs to. The decorations in effect, the display before adjustments
and the pseudo-element that a style is for belong to none. -/
def property? : Field → Option Property
  | .sizing .width => some .width
  | .sizing .height => some .height
  | .sizing .minWidth => some .minWidth
  | .sizing .minHeight => some .minHeight
  | .sizing .maxWidth => some .maxWidth
  | .sizing .maxHeight => some .maxHeight
  | .sizing .verticalAlign => some .verticalAlign
  | .sizing .boxSizing => some .boxSizing
  | .sizing .zIndex => some .zIndex
  | .visual .clip => some .clip
  | .visual .textDecoration => some .textDecoration
  | .background .color => some .backgroundColor
  | .background .image => some .backgroundImage
  | .background .outlineWidth => some .outlineWidth
  | .background .outlineStyle => some .outlineStyle
  | .background .outlineColor => some .outlineColor
  | .frame (.offset side) => some (.offset side)
  | .frame (.margin side) => some (.margin side)
  | .frame (.padding side) => some (.padding side)
  | .frame (.borderWidth side) => some (.borderWidth side)
  | .frame (.borderStyle side) => some (.borderStyle side)
  | .frame (.borderColor side) => some (.borderColor side)
  | .generated .content => some .content
  | .generated .counterIncrement => some .counterIncrement
  | .generated .counterReset => some .counterReset
  | .effects .opacity => some .opacity
  | .effects .boxShadow => some .boxShadow
  | .textEffects .textShadow => some .textShadow
  | .textEffects .wordWrap => some .wordWrap
  | .typography .textIndent => some .textIndent
  | .typography .lineHeight => some .lineHeight
  | .typography .letterSpacing => some .letterSpacing
  | .typography .wordSpacing => some .wordSpacing
  | .typography .borderSpacingHorizontal => some .borderSpacingHorizontal
  | .typography .borderSpacingVertical => some .borderSpacingVertical
  | .typography .fontFamilies => some .fontFamily
  | .typography .specifiedFontSize => some .fontSize
  | .typography .fontSize => some .fontSize
  | .typography .fontWeight => some .fontWeight
  | .typography .fontStyle => some .fontStyle
  | .typography .fontVariant => some .fontVariant
  | .typography .color => some .color
  | .typography .listStyleImage => some .listStyleImage
  | .typography .quotes => some .quotes
  | .typography .widows => some .widows
  | .typography .orphans => some .orphans
  | .inherited .visibility => some .visibility
  | .inherited .whiteSpace => some .whiteSpace
  | .inherited .textAlign => some .textAlign
  | .inherited .textTransform => some .textTransform
  | .inherited .direction => some .direction
  | .inherited .listStyleType => some .listStyleType
  | .inherited .listStylePosition => some .listStylePosition
  | .inherited .borderCollapse => some .borderCollapse
  | .inherited .captionSide => some .captionSide
  | .inherited .emptyCells => some .emptyCells
  | .inherited .cursor => some .cursor
  | .inherited .decorationsInEffect => none
  | .box .display => some .display
  | .box .unadjustedDisplay => none
  | .box .position => some .position
  | .box .float => some .float
  | .box .clear => some .clear
  | .box .overflowX => some .overflowX
  | .box .overflowY => some .overflowY
  | .box .tableLayout => some .tableLayout
  | .box .styleType => none

/-- No field belongs to two properties, and each property has the fields that belong to it. -/
theorem mem_fields_iff {f : Field} {p : Property} : f ∈ p.fields ↔ f.property? = some p := by
  constructor
  · intro h
    cases p with
    | fontSize =>
      rcases List.mem_pair.mp h with rfl | rfl <;> rfl
    | _ =>
      obtain rfl := List.mem_singleton.mp h
      rfl
  · intro h
    rcases f with f | f | f | f | f | f | f | f | f | f <;> cases f <;> cases h <;>
      simp [Property.fields]

/-- Whether a field is taken from the parent with the groups and keywords that are inherited. -/
def isInherited : Field → Bool
  | .textEffects _ | .typography _ | .inherited _ => true
  | _ => false

theorem isInherited_of_mem {f : Field} {p : Property} (h : f ∈ p.fields) :
    p.isInherited = f.isInherited := by
  rw [mem_fields_iff] at h
  rcases f with f | f | f | f | f | f | f | f | f | f <;> cases f <;> cases h <;> rfl

end Field

theorem Property.nodup_fields (p : Property) : p.fields.Nodup := by
  cases p with
  | fontSize => decide
  | _ => exact List.nodup_singleton _

/-! ## Winners -/

namespace Declaration

/-- The last declaration of a property. -/
def winner? (p : Property) (ds : List Declaration) : Option Declaration :=
  (ds.filter (·.property = .known p)).getLast?

theorem of_winner?_eq_some {p : Property} {ds : List Declaration} {d : Declaration}
    (h : winner? p ds = some d) : d ∈ ds ∧ d.property = .known p := by
  obtain ⟨hmem, hproperty⟩ := List.mem_filter.mp (List.mem_of_getLast? h)
  exact ⟨hmem, of_decide_eq_true hproperty⟩

theorem winner?_append_singleton (p : Property) (ds : List Declaration) (d : Declaration) :
    winner? p (ds ++ [d]) = if d.property = .known p then some d else winner? p ds := by
  rw [winner?, List.filter_append, List.filter_singleton]
  split <;> simp_all [winner?]

/-- Setting declarations of some properties apart does not change who wins. -/
theorem winner?_filter (q : PropertyId → Bool) (p : Property) (ds : List Declaration) :
    winner? p (ds.filter (q ·.property)) = if q (.known p) then winner? p ds else none := by
  have hboth (d : Declaration) : (decide (d.property = .known p) && q d.property) =
      (decide (d.property = .known p) && q (.known p)) := by
    by_cases hd : d.property = .known p
    · rw [hd]
    · rw [decide_eq_false hd, Bool.false_and, Bool.false_and]
  rw [winner?, List.filter_filter]
  simp only [hboth]
  cases q (.known p) with
  | true => simp only [Bool.and_true, if_true, winner?]
  | false => simp

end Declaration

namespace OwnStyle

theorem Holds.congr {s s' : OwnStyle} {f : Field} {v : f.Value} (h : s.Holds f v)
    (hget : s'.get f = s.get f) : s'.Holds f v := by
  rw [Holds, hget]
  exact h

/-- Assignments to different fields are all seen afterwards. -/
theorem holds_foldl_assign (stamp : Stamp) (s : OwnStyle) {l : List Assignment}
    (hnodup : (l.map Assignment.field).Nodup) {a : Assignment} (ha : a ∈ l) :
    (l.foldl (assign stamp) s).Holds a.field a.value := by
  induction l generalizing s with
  | nil => cases ha
  | cons b l ih =>
    rw [List.map_cons, List.nodup_cons] at hnodup
    rcases List.mem_cons.mp ha with rfl | ha
    · exact (holds_set stamp s a.field a.value).congr (StyleContext.get_foldl_assign hnodup.1)
    · exact ih _ hnodup.2 ha

/-- The fonts of styles that agree in the fields of font properties are the same. -/
theorem font_eq_of_get {s s' : OwnStyle}
    (h : ∀ p : Property, p.isFont = true → ∀ f ∈ p.fields, s'.get f = s.get f) :
    s'.typography.value.font = s.typography.value.font :=
  Font.ext (h .fontFamily rfl (.typography .fontFamilies) (by decide))
    (h .fontSize rfl (.typography .specifiedFontSize) (by decide))
    (h .fontSize rfl (.typography .fontSize) (by decide))
    (h .fontWeight rfl (.typography .fontWeight) (by decide))
    (h .fontStyle rfl (.typography .fontStyle) (by decide))
    (h .fontVariant rfl (.typography .fontVariant) (by decide))

end OwnStyle

namespace StyleContext

variable {c : StyleContext} {stamp : Stamp} {scale : LengthScale}

theorem nodup_fields_assignments {d : Declaration} {l : List Assignment}
    (h : c.assignments scale d = .ok l) : (l.map Assignment.field).Nodup := by
  rw [map_field_assignments h]
  cases d.property with
  | known p => exact p.nodup_fields
  | unknown code => exact List.nodup_nil

theorem fields_of_winner? {p : Property} {ds : List Declaration} {d : Declaration}
    {l : List Assignment} (hd : Declaration.winner? p ds = some d)
    (hl : c.assignments scale d = .ok l) : l.map Assignment.field = p.fields := by
  rw [map_field_assignments hl, (Declaration.of_winner?_eq_some hd).2]
  rfl

/-- What a row of declarations makes of a style: fields of properties without a declaration stay,
and the others hold what the winner comes to. -/
structure Applied (c : StyleContext) (scale : LengthScale) (ds : List Declaration)
    (s s' : OwnStyle) : Prop where
  kept : ∀ f : Field, (∀ p, f.property? = some p → Declaration.winner? p ds = none) →
    s'.get f = s.get f
  won : ∀ p d, Declaration.winner? p ds = some d →
    ∃ l, c.assignments scale d = .ok l ∧ ∀ a ∈ l, s'.Holds a.field a.value

/-- One more declaration takes the place of those of its property before it. -/
theorem Applied.step {ds : List Declaration} {s mid s' : OwnStyle} {d : Declaration}
    (h : c.Applied scale ds s mid) (hone : c.applyOne stamp scale mid d = .ok s') :
    c.Applied scale (ds ++ [d]) s s' := by
  obtain ⟨l, hl, rfl⟩ := exists_of_applyOne hone
  have hfields := map_field_assignments hl
  have hother {f : Field} (hf : ∀ p, f.property? = some p → d.property ≠ .known p) :
      (l.foldl (OwnStyle.assign stamp) mid).get f = mid.get f := by
    refine get_foldl_assign ?_
    rw [hfields]
    cases hd : d.property with
    | unknown code => exact List.not_mem_nil
    | known p => exact fun hmem => hf p (Field.mem_fields_iff.mp hmem) hd
  constructor
  · intro f hf
    have hunwon (p : Property) (hp : f.property? = some p) :
        d.property ≠ .known p ∧ Declaration.winner? p ds = none := by
      have hnone := hf p hp
      rw [Declaration.winner?_append_singleton] at hnone
      split at hnone
      · cases hnone
      · next hne => exact ⟨hne, hnone⟩
    exact (hother fun p hp => (hunwon p hp).1).trans (h.kept f fun p hp => (hunwon p hp).2)
  · intro p d' hd'
    rw [Declaration.winner?_append_singleton] at hd'
    split at hd'
    · obtain rfl := Option.some.inj hd'
      exact ⟨l, hl, fun a => OwnStyle.holds_foldl_assign stamp mid (nodup_fields_assignments hl)⟩
    · next hne =>
      obtain ⟨l', hl', hholds⟩ := h.won p d' hd'
      have hbelongs {a : Assignment} (ha : a ∈ l') : a.field.property? = some p := by
        rw [← Field.mem_fields_iff, ← fields_of_winner? hd' hl']
        exact List.mem_map_of_mem ha
      refine ⟨l', hl', fun a ha => (hholds a ha).congr (hother fun q hq hdq => hne ?_)⟩
      rw [hdq, Option.some.inj (hq.symm.trans (hbelongs ha))]

theorem applied_applyAll {ds : List Declaration} {s s' : OwnStyle}
    (h : c.applyAll stamp scale s ds = .ok s') : c.Applied scale ds s s' := by
  induction ds using List.reverseRecOn generalizing s' with
  | nil =>
    obtain rfl := Except.ok.inj h
    exact ⟨fun f _ => rfl, fun p d hd => by cases hd⟩
  | append_singleton ds d ih =>
    rw [applyAll, List.foldlM_append] at h
    obtain ⟨mid, hmid, hlast⟩ := exists_of_bind_eq_ok h
    change (c.applyOne stamp scale mid d >>= pure) = .ok s' at hlast
    rw [bind_pure] at hlast
    exact (ih hmid).step hlast

/-! ## Where a style starts from -/

/-- Content generated before or after an element, which keeps its line breaks. -/
def KeepsLines (c : StyleContext) : Prop :=
  c.parent.isSome = true ∧ (c.pseudo = some .before ∨ c.pseudo = some .after)

/-- The style that a field starts from. -/
def source (c : StyleContext) (f : Field) : ComputedStyle :=
  if f.isInherited then c.inherited else c.initial

theorem get_inheritFrom (s parent : ComputedStyle) {f : Field}
    (h : f ≠ .inherited .whiteSpace) :
    (s.inheritFrom parent).own.get f = if f.isInherited then parent.own.get f else s.own.get f := by
  cases f with
  | inherited f =>
    unfold ComputedStyle.inheritFrom
    cases f with
    | whiteSpace => exact absurd rfl h
    | _ =>
      simp only [OwnStyle.get, Field.isInherited, if_true]
      split <;> rfl
  | _ => rfl

theorem whiteSpace_inheritFrom (s parent : ComputedStyle) :
    (s.inheritFrom parent).own.inherited.whiteSpace =
      if s.styleType = some .before ∨ s.styleType = some .after then .preLine
      else parent.own.inherited.whiteSpace := by
  unfold ComputedStyle.inheritFrom
  split <;> simp_all

theorem get_mark (s : ComputedStyle) (q : Option PseudoElement) {f : Field}
    (h : f ≠ .box .styleType) : ({ s with own.box.styleType := q }).own.get f = s.own.get f := by
  cases f with
  | box f =>
    cases f with
    | styleType => exact absurd rfl h
    | _ => rfl
  | _ => rfl

theorem get_fresh {c : StyleContext} (hinitial : c.initial.styleType = none) {f : Field}
    (hmark : f ≠ .box .styleType) (hlines : f = .inherited .whiteSpace → ¬c.KeepsLines) :
    c.fresh.own.get f = (c.source f).own.get f := by
  have hfor {i : ComputedStyle} (hi : i.own.get f = c.initial.own.get f)
      (htype : f = .inherited .whiteSpace → c.parent.isSome = true →
        ¬(i.styleType = some .before ∨ i.styleType = some .after)) :
      (ComputedStyle.freshFor i c.parent).own.get f = (c.source f).own.get f := by
    rw [source, inherited]
    cases hparent : c.parent with
    | none => rw [Option.getD_none, ite_self, ← hi, ComputedStyle.freshFor]
    | some parent =>
      rw [Option.getD_some, ComputedStyle.freshFor]
      by_cases hspace : f = .inherited .whiteSpace
      · subst hspace
        have hother := htype rfl (by rw [hparent, Option.isSome_some])
        exact (whiteSpace_inheritFrom i parent).trans (if_neg hother)
      · rw [get_inheritFrom i parent hspace, hi]
        cases f.isInherited <;> rfl
  unfold fresh
  cases hpseudo : c.pseudo with
  | none =>
    refine hfor rfl fun _ _ => ?_
    rw [hinitial]
    exact nofun
  | some q =>
    refine hfor (get_mark c.initial (some q) hmark) fun hspace hparent htype => ?_
    exact hlines hspace ⟨hparent, hpseudo ▸ htype⟩

theorem styleType_fresh {c : StyleContext} (hinitial : c.initial.styleType = none) :
    c.fresh.own.box.styleType = c.pseudo := by
  unfold fresh
  cases c.pseudo <;> cases c.parent <;> first | exact hinitial | rfl

theorem whiteSpace_fresh {c : StyleContext} (h : c.KeepsLines) :
    c.fresh.own.inherited.whiteSpace = .preLine := by
  obtain ⟨hparent, hpseudo⟩ := h
  obtain ⟨parent, hparent⟩ := Option.isSome_iff_exists.mp hparent
  unfold fresh
  rw [hparent]
  rcases hpseudo with hpseudo | hpseudo <;> rw [hpseudo] <;> rfl

/-! ## Assembly -/

/-- The scale of lengths in a property of a style that is made. -/
def scaleFor (c : StyleContext) (s : OwnStyle) (p : Property) : LengthScale :=
  if p.isFont then c.fontScale else c.ownScale s

/-- Applying declarations that choose the font first and the others then leaves each property with
what its winner comes to. -/
theorem exists_applied {ds : List Declaration} (hfits : ∀ d ∈ ds, d.Fits) (c : StyleContext)
    (stamp : Stamp) :
    ∃ s, c.apply stamp ds = .ok { c.fresh with own := s.adjust stamp c.isRoot } ∧
      (∀ f : Field, (∀ p, f.property? = some p → Declaration.winner? p ds = none) →
        s.get f = c.fresh.own.get f) ∧
      ∀ p d, Declaration.winner? p ds = some d → ∃ l, c.assignments (c.scaleFor s p) d = .ok l ∧
        ∀ a ∈ l, s.Holds a.field a.value := by
  have hfit (q : PropertyId → Bool) : ∀ d ∈ ds.filter (q ·.property), d.Fits :=
    fun d hd => hfits d (List.mem_of_mem_filter hd)
  obtain ⟨mid, hmid⟩ := exists_applyAll (hfit (·.isFont)) c stamp c.fontScale c.fresh.own
  obtain ⟨s, hs⟩ := exists_applyAll (hfit (!·.isFont)) c stamp (c.ownScale mid) mid
  have hfirst := applied_applyAll hmid
  have hthen := applied_applyAll hs
  -- The second row leaves the font as the first one made it.
  have hfont (p : Property) (hp : p.isFont = true) (f : Field) (hf : f ∈ p.fields) :
      s.get f = mid.get f := by
    refine hthen.kept f fun q hq => ?_
    obtain rfl := Option.some.inj ((Field.mem_fields_iff.mp hf).symm.trans hq)
    rw [Declaration.winner?_filter (!·.isFont), PropertyId.isFont, hp]
    rfl
  refine ⟨s, ?_, fun f hf => ?_, fun p d hd => ?_⟩
  · rw [apply_eq, assigned_of_eq_ok hmid hs]
    rfl
  · have hnone (q : PropertyId → Bool) (p : Property) (hp : f.property? = some p) :
        Declaration.winner? p (ds.filter (q ·.property)) = none := by
      rw [Declaration.winner?_filter, hf p hp, ite_self]
    exact (hthen.kept f (hnone (!·.isFont))).trans (hfirst.kept f (hnone (·.isFont)))
  · rw [scaleFor]
    cases hp : p.isFont with
    | true =>
      have hwinner : Declaration.winner? p (ds.filter (·.property.isFont)) = some d := by
        rw [Declaration.winner?_filter (·.isFont), PropertyId.isFont, hp, if_pos rfl, hd]
      obtain ⟨l, hl, hholds⟩ := hfirst.won p d hwinner
      refine ⟨l, hl, fun a ha => (hholds a ha).congr (hfont p hp a.field ?_)⟩
      rw [← fields_of_winner? hd hl]
      exact List.mem_map_of_mem ha
    | false =>
      have hwinner : Declaration.winner? p (ds.filter (!·.property.isFont)) = some d := by
        rw [Declaration.winner?_filter (!·.isFont), PropertyId.isFont, hp, Bool.not_false,
          if_pos rfl, hd]
      rw [if_neg (by decide), ownScale, OwnStyle.font_eq_of_get hfont]
      exact hthen.won p d hwinner

/-- The style holds, for each property by itself, what the last declaration of it comes to. Where
there is none the property comes from the parent or is initial. -/
structure Assembled (c : StyleContext) (ds : List Declaration) (s : OwnStyle) : Prop where
  undeclared : ∀ p : Property, Declaration.winner? p ds = none →
    ¬(p = .whiteSpace ∧ c.KeepsLines) → ∀ f ∈ p.fields,
      s.get f = (if p.isInherited then c.inherited else c.initial).own.get f
  lines : Declaration.winner? .whiteSpace ds = none → c.KeepsLines →
    s.inherited.whiteSpace = .preLine
  inherits : ∀ p d, Declaration.winner? p ds = some d → d.value = .inherit →
    ∀ f ∈ p.fields, s.Holds f (c.inherited.own.get f)
  resets : ∀ p d, Declaration.winner? p ds = some d → d.value = .initial →
    ∀ f ∈ p.fields, s.Holds f (c.initial.own.get f)
  computes : ∀ p d, Declaration.winner? p ds = some d → d.value ≠ .inherit → d.value ≠ .initial →
    ∃ l, p.compute? ⟨c.settings, c.inherited.own, c.scaleFor s p⟩ d.value = some l ∧
      l.map Assignment.field = p.fields ∧ ∀ a ∈ l, s.Holds a.field a.value
  decorations : s.inherited.decorationsInEffect = c.inherited.own.inherited.decorationsInEffect
  unadjusted : s.box.unadjustedDisplay = c.initial.own.box.unadjustedDisplay
  styleType : s.box.styleType = c.pseudo

/-- Declarations that fit come to such a style, adjusted. -/
theorem exists_assembled {ds : List Declaration} (hfits : ∀ d ∈ ds, d.Fits) (c : StyleContext)
    (hinitial : c.initial.styleType = none) (stamp : Stamp) :
    ∃ s, c.Assembled ds s ∧
      c.apply stamp ds = .ok { c.fresh with own := s.adjust stamp c.isRoot } := by
  obtain ⟨s, happly, hkept, hwon⟩ := exists_applied hfits c stamp
  have hstart (f : Field) (hf : f.property? = none) : s.get f = c.fresh.own.get f :=
    hkept f fun p hp => by cases hf.symm.trans hp
  have hsource {p : Property} (hp : Declaration.winner? p ds = none) {f : Field}
      (hf : f ∈ p.fields) : s.get f = c.fresh.own.get f := by
    refine hkept f fun q hq => ?_
    rwa [← Option.some.inj ((Field.mem_fields_iff.mp hf).symm.trans hq)]
  refine ⟨s, ⟨fun p hp hlines f hf => ?_, fun hp hlines => ?_, fun p d hd hvalue f hf => ?_,
    fun p d hd hvalue f hf => ?_, fun p d hd hinherit hreset => ?_, ?_, ?_, ?_⟩, happly⟩
  · have hmark : f ≠ .box .styleType := by
      rintro rfl
      exact p.styleType_not_mem_fields hf
    have hspace : f = .inherited .whiteSpace → ¬c.KeepsLines := by
      rintro rfl hkeeps
      exact hlines ⟨(Option.some.inj (Field.mem_fields_iff.mp hf)).symm, hkeeps⟩
    rw [hsource hp hf, get_fresh hinitial hmark hspace, source, Field.isInherited_of_mem hf]
  · exact (hsource hp (List.mem_singleton_self _)).trans (whiteSpace_fresh hlines)
  · obtain ⟨l, hl, hholds⟩ := hwon p d hd
    rw [assignments, (Declaration.of_winner?_eq_some hd).2, hvalue] at hl
    obtain rfl := Except.ok.inj hl
    exact hholds ⟨f, _⟩ (List.mem_map_of_mem hf)
  · obtain ⟨l, hl, hholds⟩ := hwon p d hd
    rw [assignments, (Declaration.of_winner?_eq_some hd).2, hvalue] at hl
    obtain rfl := Except.ok.inj hl
    exact hholds ⟨f, _⟩ (List.mem_map_of_mem hf)
  · obtain ⟨l, hl, hholds⟩ := hwon p d hd
    refine ⟨l, ?_, fields_of_winner? hd hl, hholds⟩
    obtain ⟨property, value, important⟩ := d
    obtain rfl := (Declaration.of_winner?_eq_some hd).2
    rw [((assignments_cases value).resolve_left hinherit).resolve_left hreset] at hl
    cases hcomputed : p.compute? ⟨c.settings, c.inherited.own, c.scaleFor s p⟩ value with
    | none => simp [hcomputed] at hl
    | some computed =>
      rw [hcomputed] at hl
      exact congrArg some (Except.ok.inj hl)
  · have hne : Field.inherited .decorationsInEffect ≠ .box .styleType := nofun
    exact (hstart _ rfl).trans (get_fresh hinitial hne nofun)
  · have hne : Field.box .unadjustedDisplay ≠ .box .styleType := nofun
    exact (hstart _ rfl).trans (get_fresh hinitial hne nofun)
  · exact (hstart (.box .styleType) rfl).trans (styleType_fresh hinitial)

/-- Content before an element: the last width counts, in units of a font that is declared between
the widths. -/
theorem exists_assembled_before :
    let c : StyleContext :=
      ⟨.initial 0 16, .default, .approximate, some (.initial 0 16), some .before, false, 16⟩
    let ds : List Declaration :=
      [⟨.known .width, .length ⟨9, .em⟩, false⟩, ⟨.known .fontSize, .length ⟨2, .em⟩, false⟩,
        ⟨.known .width, .length ⟨3, .em⟩, false⟩]
    (∃ s, c.Assembled ds s ∧ c.apply 1 ds = .ok { c.fresh with own := s.adjust 1 false }) ∧
      (c.apply 1 ds).map (fun s => (s.own.sizing.value.width == .fixed 96,
        s.own.inherited.whiteSpace)) = .ok (true, .preLine) := by
  intro c ds
  have hfits : ∀ d ∈ ds, d.Fits := by
    intro d hd
    refine ⟨c, c.fontScale, ?_⟩
    simp only [ds, List.mem_cons, List.not_mem_nil, or_false] at hd
    rcases hd with rfl | rfl | rfl <;> exact ⟨_, rfl⟩
  exact ⟨exists_assembled hfits c rfl 1, by decide +kernel⟩

end StyleContext

end StyleEngine
