import StyleEngine.Computation.Scale
import StyleEngine.Property.Basic
import StyleEngine.Settings
import StyleEngine.Style.Field

/-!
# From specified to computed values

A property stands for one or two fields of a style, and its value is computed without a look at the
style that is being made. What it accepts hangs on the property and the kind of the value alone.

## Main definitions

* `Property.fields`: the fields that a property stands for.
* `Assignment`: a field with a value for it.
* `Property.compute?`: the assignments that a specified value comes to, if the property accepts it.
-/

namespace StyleEngine

/-- A field with a value for it. -/
structure Assignment where
  field : Field
  value : field.Value

/-- Writes the value of an assignment to its field. -/
def OwnStyle.assign (stamp : Stamp) (s : OwnStyle) (a : Assignment) : OwnStyle :=
  s.set stamp a.field a.value

namespace Property

/-- The fields that a property stands for, in the order in which they are written. -/
def fields : Property → List Field
  | color => [.typography .color]
  | fontFamily => [.typography .fontFamilies]
  | fontSize => [.typography .specifiedFontSize, .typography .fontSize]
  | fontStyle => [.typography .fontStyle]
  | fontVariant => [.typography .fontVariant]
  | fontWeight => [.typography .fontWeight]
  | lineHeight => [.typography .lineHeight]
  | letterSpacing => [.typography .letterSpacing]
  | wordSpacing => [.typography .wordSpacing]
  | textIndent => [.typography .textIndent]
  | textAlign => [.inherited .textAlign]
  | textTransform => [.inherited .textTransform]
  | textShadow => [.textEffects .textShadow]
  | direction => [.inherited .direction]
  | whiteSpace => [.inherited .whiteSpace]
  | wordWrap => [.textEffects .wordWrap]
  | visibility => [.inherited .visibility]
  | listStyleType => [.inherited .listStyleType]
  | listStylePosition => [.inherited .listStylePosition]
  | listStyleImage => [.typography .listStyleImage]
  | borderCollapse => [.inherited .borderCollapse]
  | borderSpacingHorizontal => [.typography .borderSpacingHorizontal]
  | borderSpacingVertical => [.typography .borderSpacingVertical]
  | captionSide => [.inherited .captionSide]
  | emptyCells => [.inherited .emptyCells]
  | cursor => [.inherited .cursor]
  | quotes => [.typography .quotes]
  | widows => [.typography .widows]
  | orphans => [.typography .orphans]
  | display => [.box .display]
  | position => [.box .position]
  | float => [.box .float]
  | clear => [.box .clear]
  | overflowX => [.box .overflowX]
  | overflowY => [.box .overflowY]
  | tableLayout => [.box .tableLayout]
  | zIndex => [.sizing .zIndex]
  | width => [.sizing .width]
  | height => [.sizing .height]
  | minWidth => [.sizing .minWidth]
  | minHeight => [.sizing .minHeight]
  | maxWidth => [.sizing .maxWidth]
  | maxHeight => [.sizing .maxHeight]
  | verticalAlign => [.sizing .verticalAlign]
  | boxSizing => [.sizing .boxSizing]
  | offset side => [.frame (.offset side)]
  | margin side => [.frame (.margin side)]
  | padding side => [.frame (.padding side)]
  | borderWidth side => [.frame (.borderWidth side)]
  | borderStyle side => [.frame (.borderStyle side)]
  | borderColor side => [.frame (.borderColor side)]
  | backgroundColor => [.background .color]
  | backgroundImage => [.background .image]
  | outlineWidth => [.background .outlineWidth]
  | outlineStyle => [.background .outlineStyle]
  | outlineColor => [.background .outlineColor]
  | clip => [.visual .clip]
  | textDecoration => [.visual .textDecoration]
  | content => [.generated .content]
  | counterIncrement => [.generated .counterIncrement]
  | counterReset => [.generated .counterReset]
  | opacity => [.effects .opacity]
  | boxShadow => [.effects .boxShadow]

/-- The stored values of a property. -/
def assignmentsFrom (p : Property) (s : OwnStyle) : List Assignment :=
  p.fields.map fun f => ⟨f, s.get f⟩

end Property

/-! ## Kinds of value -/

namespace Value

/-- A length, `auto` or `none`. -/
def length? (scale : LengthScale) : Value → Option Length
  | auto => some .auto
  | none => some .none
  | length l => some (scale.length l)
  | _ => Option.none

/-- A length that is not a percentage. -/
def px? (scale : LengthScale) : Value → Option Float32
  | length l => scale.px? l
  | _ => Option.none

/-- A width; there are none below zero. -/
def width? (scale : LengthScale) (v : Value) : Option Float32 :=
  (v.px? scale).map (maxPx · 0)

/-- The space between letters or words. -/
def spacing? (scale : LengthScale) : Value → Option Float32
  | normal => some 0
  | v => v.px? scale

/-- A list of shadows or `none`. In a shadow a percentage counts as zero. -/
def shadows? (scale : LengthScale) : Value → Option (List Shadow)
  | none => some []
  | shadows l =>
    some (l.map fun s =>
      { x := (scale.px? s.x).getD 0
        y := (scale.px? s.y).getD 0
        blur := (scale.px? s.blur).getD 0
        color := s.color })
  | _ => Option.none

/-- A reference or `none`. -/
def url? : Value → Option (Option String)
  | none => some Option.none
  | url u => some (some u)
  | _ => Option.none

def color? : Value → Option Color
  | color c => some c
  | _ => Option.none

def borderStyle? : Value → Option BorderStyle
  | borderStyle k => some k
  | none => some .none
  | _ => Option.none

def overflow? : Value → Option Overflow
  | overflow k => some k
  | _ => Option.none

def counters? : Value → Option (List CounterDirective)
  | counters l => some l
  | none => some []
  | _ => Option.none

/-- A number of lines: at least one, and what a 16-bit number can hold. -/
def lineCount? : Value → Option UInt16
  | integer n => some (UInt16.ofNat (min 65535 (max 1 n.toInt.toNat)))
  | _ => Option.none

/-- The sides of a clip rectangle, or `auto`. -/
def clip? (scale : LengthScale) : Value → Option (Option (Edges Length))
  | auto => some Option.none
  | rect sides =>
    let side (l : Option SpecifiedLength) : Length := l.elim .auto scale.length
    some (some ⟨side sides.top, side sides.right, side sides.bottom, side sides.left⟩)
  | _ => Option.none

def verticalAlign? (scale : LengthScale) : Value → Option VerticalAlign
  | verticalAlign k => some (.keyword k)
  | length l => some (.length (scale.length l))
  | _ => Option.none

/-- A line height; percentages are of the font size. -/
def lineHeight? (scale : LengthScale) : Value → Option LineHeight
  | normal => some .normal
  | number factor => some (.number factor)
  | length l => some (.fixed (scale.pxOfFont l))
  | _ => Option.none

/-- A font size, given the size of a medium font and the scale of the parent. -/
def fontSize? (medium : Float32) (scale : LengthScale) : Value → Option Float32
  | fontSize k => some (k.size medium scale.fontSize)
  | length l => some (scale.pxOfFont l)
  | _ => Option.none

def fontWeight? (parent : UInt16) : Value → Option UInt16
  | fontWeight w => some (w.resolve parent)
  | normal => some 400
  | _ => Option.none

end Value

/-! ## Properties -/

/-- What a computed value may hang on besides the declaration. -/
structure ValueContext where
  settings : Settings
  /-- The style that values are inherited from. -/
  inherited : OwnStyle
  scale : LengthScale

namespace Property

/-- The assignment of a value to a field, if there is a value. -/
def put (f : Field) (v : Option f.Value) : Option (List Assignment) :=
  v.map fun v => [⟨f, v⟩]

/-- The assignments that a specified value other than `inherit` and `initial` comes to; `none` if
the property does not accept it. -/
def compute? (c : ValueContext) (p : Property) (v : Value) : Option (List Assignment) :=
  let parent := c.inherited.typography.value
  match p with
  | color => put (.typography .color) (v.color?.map (·.resolve parent.color))
  | fontFamily =>
    put (.typography .fontFamilies) (match v with | .fontFamily l => some l | _ => none)
  | fontSize =>
    (v.fontSize? c.settings.defaultFontSize c.scale).map fun px =>
      [⟨.typography .specifiedFontSize, px⟩, ⟨.typography .fontSize, c.settings.clampFontSize px⟩]
  | fontStyle =>
    put (.typography .fontStyle) (match v with | .fontStyle k => some k | _ => none)
  | fontVariant =>
    put (.typography .fontVariant) (match v with | .fontVariant k => some k | _ => none)
  | fontWeight => put (.typography .fontWeight) (v.fontWeight? parent.font.weight)
  | lineHeight => put (.typography .lineHeight) (v.lineHeight? c.scale)
  | letterSpacing => put (.typography .letterSpacing) (v.spacing? c.scale)
  | wordSpacing => put (.typography .wordSpacing) (v.spacing? c.scale)
  | textIndent =>
    put (.typography .textIndent) (match v with | .length l => some (c.scale.length l) | _ => none)
  | textAlign =>
    put (.inherited .textAlign) (match v with | .textAlign k => some k | _ => none)
  | textTransform =>
    put (.inherited .textTransform) (match v with | .textTransform k => some k | _ => none)
  | textShadow => put (.textEffects .textShadow) (v.shadows? c.scale)
  | direction =>
    put (.inherited .direction) (match v with | .direction k => some k | _ => none)
  | whiteSpace =>
    put (.inherited .whiteSpace) (match v with | .whiteSpace k => some k | _ => none)
  | wordWrap =>
    put (.textEffects .wordWrap) (match v with | .wordWrap k => some k | _ => none)
  | visibility =>
    put (.inherited .visibility) (match v with | .visibility k => some k | _ => none)
  | listStyleType =>
    put (.inherited .listStyleType)
      (match v with | .listStyleType k => some k | .none => some .none | _ => none)
  | listStylePosition =>
    put (.inherited .listStylePosition) (match v with | .listStylePosition k => some k | _ => none)
  | listStyleImage => put (.typography .listStyleImage) v.url?
  | borderCollapse =>
    put (.inherited .borderCollapse) (match v with | .borderCollapse k => some k | _ => none)
  | borderSpacingHorizontal => put (.typography .borderSpacingHorizontal) (v.px? c.scale)
  | borderSpacingVertical => put (.typography .borderSpacingVertical) (v.px? c.scale)
  | captionSide =>
    put (.inherited .captionSide) (match v with | .captionSide k => some k | _ => none)
  | emptyCells =>
    put (.inherited .emptyCells) (match v with | .emptyCells k => some k | _ => none)
  | cursor =>
    put (.inherited .cursor)
      (match v with | .cursor k => some k | .auto => some .auto | _ => none)
  | quotes =>
    put (.typography .quotes)
      (match v with | .quotes l => some (some l) | .none => some (some []) | _ => none)
  | widows => put (.typography .widows) v.lineCount?
  | orphans => put (.typography .orphans) v.lineCount?
  | display => put (.box .display) (match v with | .display k => some k | _ => none)
  | position => put (.box .position) (match v with | .position k => some k | _ => none)
  | float =>
    put (.box .float) (match v with | .floating k => some k | .none => some .none | _ => none)
  | clear =>
    put (.box .clear) (match v with | .clear k => some k | .none => some .none | _ => none)
  | overflowX => put (.box .overflowX) v.overflow?
  | overflowY => put (.box .overflowY) v.overflow?
  | tableLayout =>
    put (.box .tableLayout)
      (match v with | .tableLayout k => some k | .auto => some .auto | _ => none)
  | zIndex =>
    put (.sizing .zIndex)
      (match v with | .integer n => some (some n) | .auto => some none | _ => none)
  | width => put (.sizing .width) (v.length? c.scale)
  | height => put (.sizing .height) (v.length? c.scale)
  | minWidth => put (.sizing .minWidth) (v.length? c.scale)
  | minHeight => put (.sizing .minHeight) (v.length? c.scale)
  | maxWidth => put (.sizing .maxWidth) (v.length? c.scale)
  | maxHeight => put (.sizing .maxHeight) (v.length? c.scale)
  | verticalAlign => put (.sizing .verticalAlign) (v.verticalAlign? c.scale)
  | boxSizing => put (.sizing .boxSizing) (match v with | .boxSizing k => some k | _ => none)
  | offset side => put (.frame (.offset side)) (v.length? c.scale)
  | margin side => put (.frame (.margin side)) (v.length? c.scale)
  | padding side =>
    put (.frame (.padding side)) (match v with | .length l => some (c.scale.length l) | _ => none)
  | borderWidth side => put (.frame (.borderWidth side)) (v.width? c.scale)
  | borderStyle side => put (.frame (.borderStyle side)) v.borderStyle?
  | borderColor side => put (.frame (.borderColor side)) v.color?
  | backgroundColor => put (.background .color) v.color?
  | backgroundImage => put (.background .image) v.url?
  | outlineWidth => put (.background .outlineWidth) (v.width? c.scale)
  | outlineStyle => put (.background .outlineStyle) v.borderStyle?
  | outlineColor => put (.background .outlineColor) v.color?
  | clip => put (.visual .clip) (v.clip? c.scale)
  | textDecoration =>
    put (.visual .textDecoration)
      (match v with | .textDecoration l => some l | .none => some .none | _ => none)
  | content =>
    put (.generated .content)
      (match v with
        | .normal => some none
        | .none => some none
        | .content l => some (some l)
        | _ => none)
  | counterIncrement => put (.generated .counterIncrement) v.counters?
  | counterReset => put (.generated .counterReset) v.counters?
  | opacity =>
    put (.effects .opacity) (match v with | .number x => some (clampUnit x) | _ => none)
  | boxShadow => put (.effects .boxShadow) (v.shadows? c.scale)

end Property

end StyleEngine
