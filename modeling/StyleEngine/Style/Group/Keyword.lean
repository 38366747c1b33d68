import StyleEngine.Selector.Basic
import StyleEngine.Value.Keyword

/-!
# Keyword records

Keywords are small, so a style stores them by value, in one record for those that are inherited and
one for those that are not.
-/

namespace StyleEngine

/-- Keywords that are inherited. -/
structure InheritedKeywords where
  visibility : Visibility
  whiteSpace : WhiteSpace
  textAlign : TextAlign
  textTransform : TextTransform
  direction : Direction
  listStyleType : ListStyleType
  listStylePosition : ListStylePosition
  borderCollapse : BorderCollapse
  captionSide : CaptionSide
  emptyCells : EmptyCells
  cursor : Cursor
  /-- The lines drawn on the text of the element, those of its ancestors included. -/
  decorationsInEffect : DecorationLines
deriving DecidableEq, Inhabited, Repr

namespace InheritedKeywords

inductive Field
  | visibility
  | whiteSpace
  | textAlign
  | textTransform
  | direction
  | listStyleType
  | listStylePosition
  | borderCollapse
  | captionSide
  | emptyCells
  | cursor
  | decorationsInEffect
deriving DecidableEq, Repr

abbrev Field.Value : Field → Type
  | .visibility => Visibility
  | .whiteSpace => WhiteSpace
  | .textAlign => TextAlign
  | .textTransform => TextTransform
  | .direction => Direction
  | .listStyleType => ListStyleType
  | .listStylePosition => ListStylePosition
  | .borderCollapse => BorderCollapse
  | .captionSide => CaptionSide
  | .emptyCells => EmptyCells
  | .cursor => Cursor
  | .decorationsInEffect => DecorationLines

def get (k : InheritedKeywords) : (f : Field) → f.Value
  | .visibility => k.visibility
  | .whiteSpace => k.whiteSpace
  | .textAlign => k.textAlign
  | .textTransform => k.textTransform
  | .direction => k.direction
  | .listStyleType => k.listStyleType
  | .listStylePosition => k.listStylePosition
  | .borderCollapse => k.borderCollapse
  | .captionSide => k.captionSide
  | .emptyCells => k.emptyCells
  | .cursor => k.cursor
  | .decorationsInEffect => k.decorationsInEffect

def set (k : InheritedKeywords) : (f : Field) → f.Value → InheritedKeywords
  | .visibility, v => { k with visibility := v }
  | .whiteSpace, v => { k with whiteSpace := v }
  | .textAlign, v => { k with textAlign := v }
  | .textTransform, v => { k with textTransform := v }
  | .direction, v => { k with direction := v }
  | .listStyleType, v => { k with listStyleType := v }
  | .listStylePosition, v => { k with listStylePosition := v }
  | .borderCollapse, v => { k with borderCollapse := v }
  | .captionSide, v => { k with captionSide := v }
  | .emptyCells, v => { k with emptyCells := v }
  | .cursor, v => { k with cursor := v }
  | .decorationsInEffect, v => { k with decorationsInEffect := v }

end InheritedKeywords

/-- Keywords that are not inherited. -/
structure BoxKeywords where
  display : Display
  /-- The display before any adjustment. -/
  unadjustedDisplay : Display
  position : Position
  float : Floating
  clear : Clear
  overflowX : Overflow
  overflowY : Overflow
  tableLayout : TableLayout
  /-- The pseudo-element that the style is for, if any. -/
  styleType : Option PseudoElement
deriving DecidableEq, Inhabited, Repr

namespace BoxKeywords

inductive Field
  | display
  | unadjustedDisplay
  | position
  | float
  | clear
  | overflowX
  | overflowY
  | tableLayout
  | styleType
deriving DecidableEq, Repr

abbrev Field.Value : Field → Type
  | .display | .unadjustedDisplay => Display
  | .position => Position
  | .float => Floating
  | .clear => Clear
  | .overflowX | .overflowY => Overflow
  | .tableLayout => TableLayout
  | .styleType => Option PseudoElement

def get (k : BoxKeywords) : (f : Field) → f.Value
  | .display => k.display
  | .unadjustedDisplay => k.unadjustedDisplay
  | .position => k.position
  | .float => k.float
  | .clear => k.clear
  | .overflowX => k.overflowX
  | .overflowY => k.overflowY
  | .tableLayout => k.tableLayout
  | .styleType => k.styleType

def set (k : BoxKeywords) : (f : Field) → f.Value → BoxKeywords
  | .display, v => { k with display := v }
  | .unadjustedDisplay, v => { k with unadjustedDisplay := v }
  | .position, v => { k with position := v }
  | .float, v => { k with float := v }
  | .clear, v => { k with clear := v }
  | .overflowX, v => { k with overflowX := v }
  | .overflowY, v => { k with overflowY := v }
  | .tableLayout, v => { k with tableLayout := v }
  | .styleType, v => { k with styleType := v }

end BoxKeywords

end StyleEngine
