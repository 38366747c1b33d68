import StyleEngine.Value.Computed

/-!
# Specified values

What a declaration may say, before anything is known of the element it applies to. Which values a
property accepts is a matter of the property, so one type holds them all.
-/

namespace StyleEngine

inductive FontWeight
  | weight (value : UInt16)
  | bolder
  | lighter
deriving DecidableEq, Repr

structure SpecifiedShadow where
  x : SpecifiedLength
  y : SpecifiedLength
  blur : SpecifiedLength
  color : Color
deriving BEq

inductive Value
  | inherit
  | initial
  | auto
  | none
  | normal
  | length : SpecifiedLength → Value
  | number : Float32 → Value
  | integer : Int32 → Value
  | color : Color → Value
  | url : String → Value
  | display : Display → Value
  | position : Position → Value
  | floating : Floating → Value
  | clear : Clear → Value
  | overflow : Overflow → Value
  | visibility : Visibility → Value
  | whiteSpace : WhiteSpace → Value
  | textAlign : TextAlign → Value
  | textTransform : TextTransform → Value
  | direction : Direction → Value
  | borderStyle : BorderStyle → Value
  | boxSizing : BoxSizing → Value
  | verticalAlign : BaselineAlign → Value
  | listStyleType : ListStyleType → Value
  | listStylePosition : ListStylePosition → Value
  | tableLayout : TableLayout → Value
  | borderCollapse : BorderCollapse → Value
  | captionSide : CaptionSide → Value
  | emptyCells : EmptyCells → Value
  | cursor : Cursor → Value
  | wordWrap : WordWrap → Value
  | textDecoration : DecorationLines → Value
  | fontStyle : FontStyle → Value
  | fontVariant : FontVariant → Value
  | fontWeight : FontWeight → Value
  | fontSize : FontSizeKeyword → Value
  | fontFamily : List String → Value
  | shadows : List SpecifiedShadow → Value
  /-- The sides of a clip rectangle; a side without a length is `auto`. -/
  | rect : Edges (Option SpecifiedLength) → Value
  | content : List ContentItem → Value
  | counters : List CounterDirective → Value
  | quotes : List (String × String) → Value
deriving BEq

end StyleEngine
