import StyleEngine.Property.Basic
import StyleEngine.Style.Field

/-!
# The fields of a style by name

Fields have names of their own, since some of them are set by no property and some properties set
several. A name is in lower case with hyphens between its words. A field of one side of the box ends
in the name of the side.

## Main definitions

* `Field.all`: every field.
* `Field.name`: the name of a field.
* `Field.ofName?`: the field of a given name.
-/

namespace StyleEngine

def Sizing.Field.name : Sizing.Field → String
  | width => "width"
  | height => "height"
  | minWidth => "min-width"
  | minHeight => "min-height"
  | maxWidth => "max-width"
  | maxHeight => "max-height"
  | verticalAlign => "vertical-align"
  | boxSizing => "box-sizing"
  | zIndex => "z-index"

def Visual.Field.name : Visual.Field → String
  | clip => "clip"
  | textDecoration => "text-decoration"

def Background.Field.name : Background.Field → String
  | color => "background-color"
  | image => "background-image"
  | outlineWidth => "outline-width"
  | outlineStyle => "outline-style"
  | outlineColor => "outline-color"

def Frame.Field.name : Frame.Field → String
  | offset side => "offset-" ++ side.name
  | margin side => "margin-" ++ side.name
  | padding side => "padding-" ++ side.name
  | borderWidth side => "border-width-" ++ side.name
  | borderStyle side => "border-style-" ++ side.name
  | borderColor side => "border-color-" ++ side.name

def Generated.Field.name : Generated.Field → String
  | content => "content"
  | counterIncrement => "counter-increment"
  | counterReset => "counter-reset"

def Effects.Field.name : Effects.Field → String
  | opacity => "opacity"
  | boxShadow => "box-shadow"

def TextEffects.Field.name : TextEffects.Field → String
  | textShadow => "text-shadow"
  | wordWrap => "word-wrap"

def Typography.Field.name : Typography.Field → String
  | color => "color"
  | fontFamilies => "font-families"
  | specifiedFontSize => "specified-font-size"
  | fontSize => "font-size"
  | fontWeight => "font-weight"
  | fontStyle => "font-style"
  | fontVariant => "font-variant"
  | lineHeight => "line-height"
  | textIndent => "text-indent"
  | letterSpacing => "letter-spacing"
  | wordSpacing => "word-spacing"
  | borderSpacingHorizontal => "border-spacing-horizontal"
  | borderSpacingVertical => "border-spacing-vertical"
  | listStyleImage => "list-style-image"
  | quotes => "quotes"
  | widows => "widows"
  | orphans => "orphans"

def InheritedKeywords.Field.name : InheritedKeywords.Field → String
  | visibility => "visibility"
  | whiteSpace => "white-space"
  | textAlign => "text-align"
  | textTransform => "text-transform"
  | direction => "direction"
  | listStyleType => "list-style-type"
  | listStylePosition => "list-style-position"
  | borderCollapse => "border-collapse"
  | captionSide => "caption-side"
  | emptyCells => "empty-cells"
  | cursor => "cursor"
  | decorationsInEffect => "text-decorations-in-effect"

def BoxKeywords.Field.name : BoxKeywords.Field → String
  | display => "display"
  | unadjustedDisplay => "original-display"
  | position => "position"
  | float => "float"
  | clear => "clear"
  | overflowX => "overflow-x"
  | overflowY => "overflow-y"
  | tableLayout => "table-layout"
  | styleType => "style-type"

namespace Field

/-- Every field, group by group. -/
def all : List Field :=
  [Sizing.Field.width, .height, .minWidth, .minHeight, .maxWidth, .maxHeight, .verticalAlign,
    .boxSizing, .zIndex].map sizing ++
  [Visual.Field.clip, .textDecoration].map visual ++
  [Background.Field.color, .image, .outlineWidth, .outlineStyle, .outlineColor].map background ++
  ([Frame.Field.offset, .margin, .padding, .borderWidth, .borderStyle, .borderColor].flatMap
    Side.all.map).map frame ++
  [Generated.Field.content, .counterIncrement, .counterReset].map generated ++
  [Effects.Field.opacity, .boxShadow].map effects ++
  [TextEffects.Field.textShadow, .wordWrap].map textEffects ++
  [Typography.Field.color, .fontFamilies, .specifiedFontSize, .fontSize, .fontWeight, .fontStyle,
    .fontVariant, .lineHeight, .textIndent, .letterSpacing, .wordSpacing, .borderSpacingHorizontal,
    .borderSpacingVertical, .listStyleImage, .quotes, .widows, .orphans].map typography ++
  [InheritedKeywords.Field.visibility, .whiteSpace, .textAlign, .textTransform, .direction,
    .listStyleType, .listStylePosition, .borderCollapse, .captionSide, .emptyCells, .cursor,
    .decorationsInEffect].map inherited ++
  [BoxKeywords.Field.display, .unadjustedDisplay, .position, .float, .clear, .overflowX, .overflowY,
    .tableLayout, .styleType].map box

theorem mem_all (f : Field) : f ∈ all := by
  cases f with
  | frame f => cases f <;> rename_i s <;> cases s <;> decide
  | _ f => cases f <;> decide

/-- The name of a field. -/
def name : Field → String
  | sizing f => f.name
  | visual f => f.name
  | background f => f.name
  | frame f => f.name
  | generated f => f.name
  | effects f => f.name
  | textEffects f => f.name
  | typography f => f.name
  | inherited f => f.name
  | box f => f.name

/-- The field of a given name. -/
def ofName? (name : String) : Option Field :=
  all.find? fun f => f.name == name

end Field

end StyleEngine
