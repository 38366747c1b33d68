import StyleEngine.Proofs.Value.Zero
import StyleEngine.Style.Computed

/-!
# Plain values

The plain form of a value is the value with the signs of zeros dropped. Equal values have one plain
form, and values of one plain form are equal unless they hold a number that is none. A group has a
plain form field by field, and each of the eight groups is one instance of this.

## Main definitions

* `Plain`: types whose values have a plain form.
* `PlainGroup`: groups whose fields have.

## Main statements

* `PlainGroup.plainForm_eq_of_beq`, `PlainGroup.beq_of_plainForm_eq`: the plain form of a group
  against its equality.
-/

namespace StyleEngine

/-! ## Values -/

/-- Values with a plain form that equal values have in common. -/
class Plain (α : Type) [BEq α] where
  plain : α → α
  plain_eq_of_beq : ∀ {a b : α}, (a == b) = true → plain a = plain b
  beq_of_plain_eq : ∀ {a b : α}, plain a = plain b → (a == a) = true → (a == b) = true
  beq_self_of_plain_eq : ∀ {a b : α}, plain a = plain b → (a == a) = true → (b == b) = true

export Plain (plain)

/-- Values that are told apart by their equality are plain. -/
abbrev Plain.ofLawful (α : Type) [BEq α] [LawfulBEq α] : Plain α :=
  ⟨id, eq_of_beq, fun h _ => beq_iff_eq.mpr h, fun _ _ => beq_self_eq_true _⟩

instance : Plain Float32 :=
  ⟨plainZero, plainZero_eq_of_beq, beq_of_plainZero_eq, beq_self_of_plainZero_eq⟩

attribute [ext] Edges

namespace Edges

variable {α : Type}

theorem ext_get {e f : Edges α} (h : ∀ side, e.get side = f.get side) : e = f :=
  Edges.ext (h .top) (h .right) (h .bottom) (h .left)

theorem beq_iff [BEq α] {e f : Edges α} :
    (e == f) = true ↔ ∀ side, (e.get side == f.get side) = true := by
  have hbeq : (e == f) =
      (e.top == f.top && (e.right == f.right && (e.bottom == f.bottom && e.left == f.left))) := rfl
  rw [hbeq]
  simp only [Bool.and_eq_true]
  constructor
  · rintro ⟨htop, hright, hbottom, hleft⟩ side
    cases side <;> assumption
  · intro h
    exact ⟨h .top, h .right, h .bottom, h .left⟩

end Edges

section Containers

variable {α : Type} [BEq α] [Plain α]

instance : Plain (List α) where
  plain l := l.map plain
  plain_eq_of_beq {l m} h := by
    induction l generalizing m with
    | nil =>
      cases m with
      | nil => rfl
      | cons b m => cases h
    | cons a l ih =>
      cases m with
      | nil => cases h
      | cons b m =>
        rw [List.cons_beq_cons, Bool.and_eq_true] at h
        rw [List.map_cons, List.map_cons, Plain.plain_eq_of_beq h.1, ih h.2]
  beq_of_plain_eq {l m} h hself := by
    induction l generalizing m with
    | nil =>
      cases m with
      | nil => rfl
      | cons b m => cases h
    | cons a l ih =>
      cases m with
      | nil => cases h
      | cons b m =>
        obtain ⟨hhead, htail⟩ := List.cons.inj h
        rw [List.cons_beq_cons, Bool.and_eq_true] at hself ⊢
        exact ⟨Plain.beq_of_plain_eq hhead hself.1, ih htail hself.2⟩
  beq_self_of_plain_eq {l m} h hself := by
    induction l generalizing m with
    | nil =>
      obtain rfl := List.map_eq_nil_iff.mp h.symm
      rfl
    | cons a l ih =>
      cases m with
      | nil => cases h
      | cons b m =>
        obtain ⟨hhead, htail⟩ := List.cons.inj h
        rw [List.cons_beq_cons, Bool.and_eq_true] at hself ⊢
        exact ⟨Plain.beq_self_of_plain_eq hhead hself.1, ih htail hself.2⟩

instance : Plain (Option α) where
  plain o := o.map plain
  plain_eq_of_beq {o p} h := by
    cases o <;> cases p
    · rfl
    · cases h
    · cases h
    · exact congrArg some (Plain.plain_eq_of_beq h)
  beq_of_plain_eq {o p} h hself := by
    cases o <;> cases p
    · rfl
    · cases h
    · cases h
    · exact Plain.beq_of_plain_eq (α := α) (Option.some.inj h) hself
  beq_self_of_plain_eq {o p} h hself := by
    cases o <;> cases p
    · rfl
    · cases h
    · rfl
    · exact Plain.beq_self_of_plain_eq (α := α) (Option.some.inj h) hself

instance : Plain (Edges α) where
  plain e := ⟨plain e.top, plain e.right, plain e.bottom, plain e.left⟩
  plain_eq_of_beq h := by
    refine Edges.ext_get fun side => ?_
    have hside := Plain.plain_eq_of_beq (Edges.beq_iff.mp h side)
    cases side <;> exact hside
  beq_of_plain_eq h hself := by
    refine Edges.beq_iff.mpr fun side => Plain.beq_of_plain_eq ?_ (Edges.beq_iff.mp hself side)
    have hside := congrArg (Edges.get · side) h
    cases side <;> exact hside
  beq_self_of_plain_eq h hself := by
    refine Edges.beq_iff.mpr fun side => Plain.beq_self_of_plain_eq ?_ (Edges.beq_iff.mp hself side)
    have hside := congrArg (Edges.get · side) h
    cases side <;> exact hside

end Containers

instance : Plain Length where
  plain
    | .fixed px => .fixed (plain px)
    | .percent value => .percent (plain value)
    | l => l
  plain_eq_of_beq {l m} h := by
    cases l <;> cases m <;> try cases h
    · rfl
    · rfl
    · exact congrArg Length.fixed (Plain.plain_eq_of_beq h)
    · exact congrArg Length.percent (Plain.plain_eq_of_beq h)
  beq_of_plain_eq {l m} h hself := by
    cases l <;> cases m <;> try cases h
    · rfl
    · rfl
    · exact Plain.beq_of_plain_eq (α := Float32) (Length.fixed.inj h) hself
    · exact Plain.beq_of_plain_eq (α := Float32) (Length.percent.inj h) hself
  beq_self_of_plain_eq {l m} h hself := by
    cases l <;> cases m <;> try cases h
    · rfl
    · rfl
    · exact Plain.beq_self_of_plain_eq (α := Float32) (Length.fixed.inj h) hself
    · exact Plain.beq_self_of_plain_eq (α := Float32) (Length.percent.inj h) hself

instance : Plain VerticalAlign where
  plain
    | .length offset => .length (plain offset)
    | v => v
  plain_eq_of_beq {v w} h := by
    cases v <;> cases w <;> try cases h
    · exact congrArg VerticalAlign.keyword (eq_of_beq h)
    · exact congrArg VerticalAlign.length (Plain.plain_eq_of_beq h)
  beq_of_plain_eq {v w} h hself := by
    cases v <;> cases w <;> try cases h
    · exact hself
    · exact Plain.beq_of_plain_eq (α := Length) (VerticalAlign.length.inj h) hself
  beq_self_of_plain_eq {v w} h hself := by
    cases v <;> cases w <;> try cases h
    · exact hself
    · exact Plain.beq_self_of_plain_eq (α := Length) (VerticalAlign.length.inj h) hself

instance : Plain LineHeight where
  plain
    | .number factor => .number (plain factor)
    | .fixed px => .fixed (plain px)
    | .normal => .normal
  plain_eq_of_beq {v w} h := by
    cases v <;> cases w <;> try cases h
    · rfl
    · exact congrArg LineHeight.number (Plain.plain_eq_of_beq h)
    · exact congrArg LineHeight.fixed (Plain.plain_eq_of_beq h)
  beq_of_plain_eq {v w} h hself := by
    cases v <;> cases w <;> try cases h
    · rfl
    · exact Plain.beq_of_plain_eq (α := Float32) (LineHeight.number.inj h) hself
    · exact Plain.beq_of_plain_eq (α := Float32) (LineHeight.fixed.inj h) hself
  beq_self_of_plain_eq {v w} h hself := by
    cases v <;> cases w <;> try cases h
    · rfl
    · exact Plain.beq_self_of_plain_eq (α := Float32) (LineHeight.number.inj h) hself
    · exact Plain.beq_self_of_plain_eq (α := Float32) (LineHeight.fixed.inj h) hself

theorem Shadow.beq_iff {s t : Shadow} :
    (s == t) = true ↔ (s.x == t.x) = true ∧ (s.y == t.y) = true ∧ (s.blur == t.blur) = true ∧
      s.color = t.color := by
  have hbeq : (s == t) =
      (s.x == t.x && (s.y == t.y && (s.blur == t.blur && s.color == t.color))) := rfl
  rw [hbeq]
  simp only [Bool.and_eq_true, beq_iff_eq]

instance : Plain Shadow where
  plain s := ⟨plain s.x, plain s.y, plain s.blur, s.color⟩
  plain_eq_of_beq h := by
    obtain ⟨hx, hy, hblur, hcolor⟩ := Shadow.beq_iff.mp h
    simp only [Plain.plain_eq_of_beq hx, Plain.plain_eq_of_beq hy, Plain.plain_eq_of_beq hblur,
      hcolor]
  beq_of_plain_eq h hself := by
    obtain ⟨hx, hy, hblur, -⟩ := Shadow.beq_iff.mp hself
    obtain ⟨hx', hy', hblur', hcolor⟩ := Shadow.mk.inj h
    exact Shadow.beq_iff.mpr ⟨Plain.beq_of_plain_eq hx' hx, Plain.beq_of_plain_eq hy' hy,
      Plain.beq_of_plain_eq hblur' hblur, hcolor⟩
  beq_self_of_plain_eq h hself := by
    obtain ⟨hx, hy, hblur, -⟩ := Shadow.beq_iff.mp hself
    obtain ⟨hx', hy', hblur', -⟩ := Shadow.mk.inj h
    exact Shadow.beq_iff.mpr ⟨Plain.beq_self_of_plain_eq hx' hx, Plain.beq_self_of_plain_eq hy' hy,
      Plain.beq_self_of_plain_eq hblur' hblur, rfl⟩

/-! ## Groups -/

/-- Groups that have a plain form, field by field. -/
class PlainGroup (γ : Type) [BEq γ] where
  Field : Type
  Value : Field → Type
  [beqValue : (f : Field) → BEq (Value f)]
  [plainValue : (f : Field) → Plain (Value f)]
  get : γ → (f : Field) → Value f
  set : γ → (f : Field) → Value f → γ
  plainForm : γ → γ
  ext_get : ∀ {g g'}, (∀ f, get g f = get g' f) → g = g'
  beq_iff : ∀ {g g'}, (g == g') = true ↔ ∀ f, (get g f == get g' f) = true
  set_get : ∀ g f, set g f (get g f) = g
  get_plainForm : ∀ g f, get (plainForm g) f = plain (get g f)
  plainForm_set : ∀ g f v, plainForm (set g f v) = set (plainForm g) f (plain v)

attribute [reducible, instance] PlainGroup.beqValue PlainGroup.plainValue

namespace PlainGroup

variable {γ : Type} [BEq γ] [PlainGroup γ] {g g' : γ}

/-- Equal groups have one plain form. -/
theorem plainForm_eq_of_beq (h : (g == g') = true) : plainForm g = plainForm g' := by
  refine ext_get fun f => ?_
  rw [get_plainForm, get_plainForm]
  exact Plain.plain_eq_of_beq (beq_iff.mp h f)

/-- Groups of one plain form are equal, unless one is not even equal to itself. -/
theorem beq_of_plainForm_eq (h : plainForm g = plainForm g') (hself : (g == g) = true) :
    (g == g') = true := by
  refine beq_iff.mpr fun f => Plain.beq_of_plain_eq ?_ (beq_iff.mp hself f)
  rw [← get_plainForm, h, get_plainForm]

theorem beq_self_of_plainForm_eq (h : plainForm g = plainForm g') (hself : (g == g) = true) :
    (g' == g') = true := by
  refine beq_iff.mpr fun f => Plain.beq_self_of_plain_eq ?_ (beq_iff.mp hself f)
  rw [← get_plainForm, h, get_plainForm]

end PlainGroup

attribute [ext] Sizing Visual Background Border Frame Generated Effects TextEffects Font Typography

instance : (f : Sizing.Field) → Plain f.Value
  | .width | .height | .minWidth | .minHeight | .maxWidth | .maxHeight =>
    inferInstanceAs (Plain Length)
  | .verticalAlign => inferInstanceAs (Plain VerticalAlign)
  | .boxSizing => Plain.ofLawful BoxSizing
  | .zIndex => Plain.ofLawful (Option Int32)

instance : PlainGroup Sizing where
  Field := Sizing.Field
  Value := Sizing.Field.Value
  get := Sizing.get
  set := Sizing.set
  plainForm g :=
    { g with
      width := plain g.width
      height := plain g.height
      minWidth := plain g.minWidth
      minHeight := plain g.minHeight
      maxWidth := plain g.maxWidth
      maxHeight := plain g.maxHeight
      verticalAlign := plain g.verticalAlign }
  ext_get h :=
    Sizing.ext (h .width) (h .height) (h .minWidth) (h .minHeight) (h .maxWidth) (h .maxHeight)
      (h .verticalAlign) (h .boxSizing) (h .zIndex)
  beq_iff {g g'} := by
    have hbeq : (g == g') = (g.width == g'.width && (g.height == g'.height &&
        (g.minWidth == g'.minWidth && (g.minHeight == g'.minHeight &&
          (g.maxWidth == g'.maxWidth && (g.maxHeight == g'.maxHeight &&
            (g.verticalAlign == g'.verticalAlign && (g.boxSizing == g'.boxSizing &&
              g.zIndex == g'.zIndex)))))))) := rfl
    rw [hbeq]
    simp only [Bool.and_eq_true]
    constructor
    · rintro ⟨h₁, h₂, h₃, h₄, h₅, h₆, h₇, h₈, h₉⟩ f
      cases f <;> assumption
    · intro h
      exact ⟨h .width, h .height, h .minWidth, h .minHeight, h .maxWidth, h .maxHeight,
        h .verticalAlign, h .boxSizing, h .zIndex⟩
  set_get g f := by cases f <;> rfl
  get_plainForm g f := by cases f <;> rfl
  plainForm_set g f v := by cases f <;> rfl

instance : (f : Visual.Field) → Plain f.Value
  | .clip => inferInstanceAs (Plain (Option (Edges Length)))
  | .textDecoration => Plain.ofLawful DecorationLines

instance : PlainGroup Visual where
  Field := Visual.Field
  Value := Visual.Field.Value
  get := Visual.get
  set := Visual.set
  plainForm g := { g with clip := plain g.clip }
  ext_get h := Visual.ext (h .clip) (h .textDecoration)
  beq_iff {g g'} := by
    have hbeq : (g == g') = (g.clip == g'.clip && g.textDecoration == g'.textDecoration) := rfl
    rw [hbeq]
    simp only [Bool.and_eq_true]
    constructor
    · rintro ⟨hclip, hlines⟩ f
      cases f <;> assumption
    · intro h
      exact ⟨h .clip, h .textDecoration⟩
  set_get g f := by cases f <;> rfl
  get_plainForm g f := by cases f <;> rfl
  plainForm_set g f v := by cases f <;> rfl

instance : (f : Background.Field) → Plain f.Value
  | .color | .outlineColor => Plain.ofLawful Color
  | .image => Plain.ofLawful (Option String)
  | .outlineWidth => inferInstanceAs (Plain Float32)
  | .outlineStyle => Plain.ofLawful BorderStyle

instance : PlainGroup Background where
  Field := Background.Field
  Value := Background.Field.Value
  get := Background.get
  set := Background.set
  plainForm g := { g with outlineWidth := plain g.outlineWidth }
  ext_get h :=
    Background.ext (h .color) (h .image) (h .outlineWidth) (h .outlineStyle) (h .outlineColor)
  beq_iff {g g'} := by
    have hbeq : (g == g') = (g.color == g'.color && (g.image == g'.image &&
        (g.outlineWidth == g'.outlineWidth && (g.outlineStyle == g'.outlineStyle &&
          g.outlineColor == g'.outlineColor)))) := rfl
    rw [hbeq]
    simp only [Bool.and_eq_true]
    constructor
    · rintro ⟨hcolor, himage, hwidth, hstyle, houtline⟩ f
      cases f <;> assumption
    · intro h
      exact ⟨h .color, h .image, h .outlineWidth, h .outlineStyle, h .outlineColor⟩
  set_get g f := by cases f <;> rfl
  get_plainForm g f := by cases f <;> rfl
  plainForm_set g f v := by cases f <;> rfl

instance : (f : Frame.Field) → Plain f.Value
  | .offset _ | .margin _ | .padding _ => inferInstanceAs (Plain Length)
  | .borderWidth _ => inferInstanceAs (Plain Float32)
  | .borderStyle _ => Plain.ofLawful BorderStyle
  | .borderColor _ => Plain.ofLawful Color

instance : PlainGroup Frame where
  Field := Frame.Field
  Value := Frame.Field.Value
  get := Frame.get
  set := Frame.set
  plainForm g :=
    { g with
      offset := plain g.offset
      margin := plain g.margin
      padding := plain g.padding
      border.widths := plain g.border.widths }
  ext_get h :=
    Frame.ext (Edges.ext_get fun side => h (.offset side))
      (Edges.ext_get fun side => h (.margin side)) (Edges.ext_get fun side => h (.padding side))
      (Border.ext (Edges.ext_get fun side => h (.borderWidth side))
        (Edges.ext_get fun side => h (.borderStyle side))
        (Edges.ext_get fun side => h (.borderColor side)))
  beq_iff {g g'} := by
    have hbeq : (g == g') = (g.offset == g'.offset && (g.margin == g'.margin &&
        (g.padding == g'.padding && (g.border.widths == g'.border.widths &&
          (g.border.styles == g'.border.styles && g.border.colors == g'.border.colors))))) := rfl
    rw [hbeq]
    simp only [Bool.and_eq_true, Edges.beq_iff]
    constructor
    · rintro ⟨hoffset, hmargin, hpadding, hwidths, hstyles, hcolors⟩ f
      cases f with
      | offset side => exact hoffset side
      | margin side => exact hmargin side
      | padding side => exact hpadding side
      | borderWidth side => exact hwidths side
      | borderStyle side => exact hstyles side
      | borderColor side => exact hcolors side
    · intro h
      exact ⟨fun side => h (.offset side), fun side => h (.margin side),
        fun side => h (.padding side), fun side => h (.borderWidth side),
        fun side => h (.borderStyle side), fun side => h (.borderColor side)⟩
  set_get g f := by rcases f with s | s | s | s | s | s <;> cases s <;> rfl
  get_plainForm g f := by rcases f with s | s | s | s | s | s <;> cases s <;> rfl
  plainForm_set g f v := by rcases f with s | s | s | s | s | s <;> cases s <;> rfl

instance : (f : Generated.Field) → Plain f.Value
  | .content => Plain.ofLawful (Option (List ContentItem))
  | .counterIncrement | .counterReset => Plain.ofLawful (List CounterDirective)

instance : PlainGroup Generated where
  Field := Generated.Field
  Value := Generated.Field.Value
  get := Generated.get
  set := Generated.set
  plainForm g := g
  ext_get h := Generated.ext (h .content) (h .counterIncrement) (h .counterReset)
  beq_iff {g g'} := by
    constructor
    · intro h f
      obtain rfl := eq_of_beq h
      cases f <;> exact beq_self_eq_true _
    · intro h
      exact beq_iff_eq.mpr (Generated.ext (eq_of_beq (h .content)) (eq_of_beq (h .counterIncrement))
        (eq_of_beq (h .counterReset)))
  set_get g f := by cases f <;> rfl
  get_plainForm g f := by cases f <;> rfl
  plainForm_set g f v := by cases f <;> rfl

instance : (f : Effects.Field) → Plain f.Value
  | .opacity => inferInstanceAs (Plain Float32)
  | .boxShadow => inferInstanceAs (Plain (List Shadow))

instance : PlainGroup Effects where
  Field := Effects.Field
  Value := Effects.Field.Value
  get := Effects.get
  set := Effects.set
  plainForm g := ⟨plain g.opacity, plain g.boxShadow⟩
  ext_get h := Effects.ext (h .opacity) (h .boxShadow)
  beq_iff {g g'} := by
    have hbeq : (g == g') = (g.opacity == g'.opacity && g.boxShadow == g'.boxShadow) := rfl
    rw [hbeq]
    simp only [Bool.and_eq_true]
    constructor
    · rintro ⟨hopacity, hshadow⟩ f
      cases f <;> assumption
    · intro h
      exact ⟨h .opacity, h .boxShadow⟩
  set_get g f := by cases f <;> rfl
  get_plainForm g f := by cases f <;> rfl
  plainForm_set g f v := by cases f <;> rfl

instance : (f : TextEffects.Field) → Plain f.Value
  | .textShadow => inferInstanceAs (Plain (List Shadow))
  | .wordWrap => Plain.ofLawful WordWrap

instance : PlainGroup TextEffects where
  Field := TextEffects.Field
  Value := TextEffects.Field.Value
  get := TextEffects.get
  set := TextEffects.set
  plainForm g := { g with textShadow := plain g.textShadow }
  ext_get h := TextEffects.ext (h .textShadow) (h .wordWrap)
  beq_iff {g g'} := by
    have hbeq : (g == g') = (g.textShadow == g'.textShadow && g.wordWrap == g'.wordWrap) := rfl
    rw [hbeq]
    simp only [Bool.and_eq_true]
    constructor
    · rintro ⟨hshadow, hwrap⟩ f
      cases f <;> assumption
    · intro h
      exact ⟨h .textShadow, h .wordWrap⟩
  set_get g f := by cases f <;> rfl
  get_plainForm g f := by cases f <;> rfl
  plainForm_set g f v := by cases f <;> rfl

instance : (f : Typography.Field) → Plain f.Value
  | .color => Plain.ofLawful Rgba
  | .fontFamilies => Plain.ofLawful (List String)
  | .specifiedFontSize | .fontSize | .letterSpacing | .wordSpacing | .borderSpacingHorizontal
  | .borderSpacingVertical => inferInstanceAs (Plain Float32)
  | .fontWeight | .widows | .orphans => Plain.ofLawful UInt16
  | .fontStyle => Plain.ofLawful FontStyle
  | .fontVariant => Plain.ofLawful FontVariant
  | .lineHeight => inferInstanceAs (Plain LineHeight)
  | .textIndent => inferInstanceAs (Plain Length)
  | .listStyleImage => Plain.ofLawful (Option String)
  | .quotes => Plain.ofLawful (Option (List (String × String)))

/-- The font with plain sizes. -/
def Font.plainForm (f : Font) : Font :=
  { f with specifiedSize := plain f.specifiedSize, size := plain f.size }

instance : PlainGroup Typography where
  Field := Typography.Field
  Value := Typography.Field.Value
  get := Typography.get
  set := Typography.set
  plainForm g :=
    { g with
      font := g.font.plainForm
      lineHeight := plain g.lineHeight
      textIndent := plain g.textIndent
      letterSpacing := plain g.letterSpacing
      wordSpacing := plain g.wordSpacing
      borderSpacingHorizontal := plain g.borderSpacingHorizontal
      borderSpacingVertical := plain g.borderSpacingVertical }
  ext_get h :=
    Typography.ext (h .color)
      (Font.ext (h .fontFamilies) (h .specifiedFontSize) (h .fontSize) (h .fontWeight)
        (h .fontStyle) (h .fontVariant))
      (h .lineHeight) (h .textIndent) (h .letterSpacing) (h .wordSpacing)
      (h .borderSpacingHorizontal) (h .borderSpacingVertical) (h .listStyleImage) (h .quotes)
      (h .widows) (h .orphans)
  beq_iff {g g'} := by
    have hbeq : (g == g') = (g.color == g'.color && ((g.font.families == g'.font.families &&
        (g.font.specifiedSize == g'.font.specifiedSize && (g.font.size == g'.font.size &&
          (g.font.weight == g'.font.weight && (g.font.style == g'.font.style &&
            g.font.variant == g'.font.variant))))) && (g.lineHeight == g'.lineHeight &&
        (g.textIndent == g'.textIndent && (g.letterSpacing == g'.letterSpacing &&
          (g.wordSpacing == g'.wordSpacing &&
            (g.borderSpacingHorizontal == g'.borderSpacingHorizontal &&
              (g.borderSpacingVertical == g'.borderSpacingVertical &&
                (g.listStyleImage == g'.listStyleImage && (g.quotes == g'.quotes &&
                  (g.widows == g'.widows && g.orphans == g'.orphans))))))))))) := rfl
    rw [hbeq]
    simp only [Bool.and_eq_true]
    constructor
    · rintro ⟨hcolor, ⟨hfamilies, hspecified, hsize, hweight, hstyle, hvariant⟩, hheight, hindent,
        hletter, hword, hhorizontal, hvertical, himage, hquotes, hwidows, horphans⟩ f
      cases f <;> assumption
    · intro h
      exact ⟨h .color, ⟨h .fontFamilies, h .specifiedFontSize, h .fontSize, h .fontWeight,
        h .fontStyle, h .fontVariant⟩, h .lineHeight, h .textIndent, h .letterSpacing,
        h .wordSpacing, h .borderSpacingHorizontal, h .borderSpacingVertical, h .listStyleImage,
        h .quotes, h .widows, h .orphans⟩
  set_get g f := by cases f <;> rfl
  get_plainForm g f := by cases f <;> rfl
  plainForm_set g f v := by cases f <;> rfl

end StyleEngine
