import StyleEngine.Text.Ascii
import StyleEngine.Value.Length

/-!
# Properties

Every property that the engine understands, with its name and whether it is inherited. Properties
that it does not understand are kept apart by a number and are skipped when a style is computed.
-/

namespace StyleEngine

inductive Property
  | color
  | fontFamily
  | fontSize
  | fontStyle
  | fontVariant
  | fontWeight
  | lineHeight
  | letterSpacing
  | wordSpacing
  | textIndent
  | textAlign
  | textTransform
  | textShadow
  | direction
  | whiteSpace
  | wordWrap
  | visibility
  | listStyleType
  | listStylePosition
  | listStyleImage
  | borderCollapse
  | borderSpacingHorizontal
  | borderSpacingVertical
  | captionSide
  | emptyCells
  | cursor
  | quotes
  | widows
  | orphans
  | display
  | position
  | float
  | clear
  | overflowX
  | overflowY
  | tableLayout
  | zIndex
  | width
  | height
  | minWidth
  | minHeight
  | maxWidth
  | maxHeight
  | verticalAlign
  | boxSizing
  | offset (side : Side)
  | margin (side : Side)
  | padding (side : Side)
  | borderWidth (side : Side)
  | borderStyle (side : Side)
  | borderColor (side : Side)
  | backgroundColor
  | backgroundImage
  | outlineWidth
  | outlineStyle
  | outlineColor
  | clip
  | textDecoration
  | content
  | counterIncrement
  | counterReset
  | opacity
  | boxShadow
deriving DecidableEq, Repr

namespace Side

def all : List Side := [top, right, bottom, left]

def name : Side → String
  | top => "top"
  | right => "right"
  | bottom => "bottom"
  | left => "left"

end Side

namespace Property

/-- Every property, those that are inherited first. -/
def all : List Property :=
  [color, fontFamily, fontSize, fontStyle, fontVariant, fontWeight, lineHeight, letterSpacing,
    wordSpacing, textIndent, textAlign, textTransform, textShadow, direction, whiteSpace, wordWrap,
    visibility, listStyleType, listStylePosition, listStyleImage, borderCollapse,
    borderSpacingHorizontal, borderSpacingVertical, captionSide, emptyCells, cursor, quotes,
    widows, orphans, display, position, float, clear, overflowX, overflowY, tableLayout, zIndex,
    width, height, minWidth, minHeight, maxWidth, maxHeight, verticalAlign, boxSizing] ++
  Side.all.map offset ++ Side.all.map margin ++ Side.all.map padding ++
  Side.all.map borderWidth ++ Side.all.map borderStyle ++ Side.all.map borderColor ++
  [backgroundColor, backgroundImage, outlineWidth, outlineStyle, outlineColor, clip,
    textDecoration, content, counterIncrement, counterReset, opacity, boxShadow]

theorem mem_all (p : Property) : p ∈ all := by
  cases p with
  | offset s | margin s | padding s | borderWidth s | borderStyle s | borderColor s =>
    cases s <;> decide
  | _ => decide

/-- The name of a property in a style sheet. -/
def name : Property → String
  | color => "color"
  | fontFamily => "font-family"
  | fontSize => "font-size"
  | fontStyle => "font-style"
  | fontVariant => "font-variant"
  | fontWeight => "font-weight"
  | lineHeight => "line-height"
  | letterSpacing => "letter-spacing"
  | wordSpacing => "word-spacing"
  | textIndent => "text-indent"
  | textAlign => "text-align"
  | textTransform => "text-transform"
  | textShadow => "text-shadow"
  | direction => "direction"
  | whiteSpace => "white-space"
  | wordWrap => "word-wrap"
  | visibility => "visibility"
  | listStyleType => "list-style-type"
  | listStylePosition => "list-style-position"
  | listStyleImage => "list-style-image"
  | borderCollapse => "border-collapse"
  | borderSpacingHorizontal => "-khtml-border-horizontal-spacing"
  | borderSpacingVertical => "-khtml-border-vertical-spacing"
  | captionSide => "caption-side"
  | emptyCells => "empty-cells"
  | cursor => "cursor"
  | quotes => "quotes"
  | widows => "widows"
  | orphans => "orphans"
  | display => "display"
  | position => "position"
  | float => "float"
  | clear => "clear"
  | overflowX => "overflow-x"
  | overflowY => "overflow-y"
  | tableLayout => "table-layout"
  | zIndex => "z-index"
  | width => "width"
  | height => "height"
  | minWidth => "min-width"
  | minHeight => "min-height"
  | maxWidth => "max-width"
  | maxHeight => "max-height"
  | verticalAlign => "vertical-align"
  | boxSizing => "box-sizing"
  | offset side => side.name
  | margin side => "margin-" ++ side.name
  | padding side => "padding-" ++ side.name
  | borderWidth side => "border-" ++ side.name ++ "-width"
  | borderStyle side => "border-" ++ side.name ++ "-style"
  | borderColor side => "border-" ++ side.name ++ "-color"
  | backgroundColor => "background-color"
  | backgroundImage => "background-image"
  | outlineWidth => "outline-width"
  | outlineStyle => "outline-style"
  | outlineColor => "outline-color"
  | clip => "clip"
  | textDecoration => "text-decoration"
  | content => "content"
  | counterIncrement => "counter-increment"
  | counterReset => "counter-reset"
  | opacity => "opacity"
  | boxShadow => "box-shadow"

/-- The property of a given name, up to the case of ASCII letters. -/
def ofName? (name : String) : Option Property :=
  all.find? fun p => Text.sameFolded p.name name

/-- Whether an element takes the value of its parent when nothing is declared. -/
def isInherited : Property → Bool
  | color | fontFamily | fontSize | fontStyle | fontVariant | fontWeight | lineHeight
  | letterSpacing | wordSpacing | textIndent | textAlign | textTransform | textShadow | direction
  | whiteSpace | wordWrap | visibility | listStyleType | listStylePosition | listStyleImage
  | borderCollapse | borderSpacingHorizontal | borderSpacingVertical | captionSide | emptyCells
  | cursor | quotes | widows | orphans => true
  | _ => false

/-- The properties that choose the font. They are applied first, so that all other lengths are
relative to the font that the element ends up with. -/
def isFont : Property → Bool
  | fontFamily | fontSize | fontStyle | fontVariant | fontWeight => true
  | _ => false

end Property

/-- The property of a declaration: one that is understood, or a number for one that is not. -/
inductive PropertyId
  | known (property : Property)
  | unknown (code : UInt16)
deriving DecidableEq, Repr

namespace PropertyId

def name : PropertyId → String
  | known p => p.name
  | unknown _ => "<unknown>"

def isInherited : PropertyId → Bool
  | known p => p.isInherited
  | unknown _ => false

def isFont : PropertyId → Bool
  | known p => p.isFont
  | unknown _ => false

end PropertyId

end StyleEngine
