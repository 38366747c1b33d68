/-!
# Keywords

The keyword types of style properties. Each type has the initial value of its property as its first
constructor and as its default.
-/

namespace StyleEngine

inductive Display
  | inline
  | block
  | listItem
  | runIn
  | compact
  | inlineBlock
  | table
  | inlineTable
  | tableRowGroup
  | tableHeaderGroup
  | tableFooterGroup
  | tableRow
  | tableColumnGroup
  | tableColumn
  | tableCell
  | tableCaption
  | none
deriving DecidableEq, Inhabited, Repr

namespace Display

/-- The display of a box that stands on its own: a float, a box out of flow, or the root. -/
def blockified : Display → Display
  | inlineTable => table
  | block => block
  | listItem => listItem
  | table => table
  | none => none
  | _ => block

/-- Tables, inline tables and their inner boxes. -/
def isTablePart : Display → Bool
  | table | inlineTable | tableRowGroup | tableHeaderGroup | tableFooterGroup | tableRow
  | tableColumnGroup | tableColumn | tableCell | tableCaption => true
  | _ => false

/-- The two displays of a table box itself. -/
def isTable : Display → Bool
  | table | inlineTable => true
  | _ => false

/-- Rows and groups of rows. -/
def isRowLike : Display → Bool
  | tableRow | tableRowGroup | tableHeaderGroup | tableFooterGroup => true
  | _ => false

end Display

inductive Position
  | static
  | relative
  | absolute
  | fixed
deriving DecidableEq, Inhabited, Repr

namespace Position

/-- Every position but `static`. -/
def isPositioned : Position → Bool
  | static => false
  | _ => true

/-- Absolute and fixed boxes leave the normal flow. -/
def isOutOfFlow : Position → Bool
  | absolute | fixed => true
  | _ => false

end Position

inductive Floating
  | none
  | left
  | right
deriving DecidableEq, Inhabited, Repr

inductive Clear
  | none
  | left
  | right
  | both
deriving DecidableEq, Inhabited, Repr

inductive Overflow
  | visible
  | hidden
  | scroll
  | auto
deriving DecidableEq, Inhabited, Repr

inductive Visibility
  | visible
  | hidden
  | collapse
deriving DecidableEq, Inhabited, Repr

inductive WhiteSpace
  | normal
  | pre
  | preWrap
  | preLine
  | noWrap
deriving DecidableEq, Inhabited, Repr

inductive TextAlign
  | start
  | left
  | right
  | center
  | justify
deriving DecidableEq, Inhabited, Repr

inductive TextTransform
  | none
  | capitalize
  | uppercase
  | lowercase
deriving DecidableEq, Inhabited, Repr

inductive Direction
  | ltr
  | rtl
deriving DecidableEq, Inhabited, Repr

inductive BorderStyle
  | none
  | hidden
  | dotted
  | dashed
  | solid
  | double
  | groove
  | ridge
  | inset
  | outset
deriving DecidableEq, Inhabited, Repr

namespace BorderStyle

/-- Borders of the styles `none` and `hidden` take no room. -/
def hasWidth : BorderStyle → Bool
  | none | hidden => false
  | _ => true

end BorderStyle

inductive BoxSizing
  | contentBox
  | borderBox
deriving DecidableEq, Inhabited, Repr

/-- The keywords of `vertical-align`. -/
inductive BaselineAlign
  | baseline
  | sub
  | super
  | top
  | textTop
  | middle
  | bottom
  | textBottom
deriving DecidableEq, Inhabited, Repr

inductive ListStyleType
  | disc
  | circle
  | square
  | decimal
  | decimalLeadingZero
  | lowerRoman
  | upperRoman
  | lowerAlpha
  | upperAlpha
  | none
deriving DecidableEq, Inhabited, Repr

inductive ListStylePosition
  | outside
  | inside
deriving DecidableEq, Inhabited, Repr

inductive TableLayout
  | auto
  | fixed
deriving DecidableEq, Inhabited, Repr

inductive BorderCollapse
  | separate
  | collapse
deriving DecidableEq, Inhabited, Repr

inductive CaptionSide
  | top
  | bottom
deriving DecidableEq, Inhabited, Repr

inductive EmptyCells
  | show
  | hide
deriving DecidableEq, Inhabited, Repr

inductive FontStyle
  | normal
  | italic
  | oblique
deriving DecidableEq, Inhabited, Repr

inductive FontVariant
  | normal
  | smallCaps
deriving DecidableEq, Inhabited, Repr

inductive Cursor
  | auto
  | default
  | pointer
  | text
  | wait
  | help
  | move
  | crosshair
  | progress
deriving DecidableEq, Inhabited, Repr

inductive WordWrap
  | normal
  | breakWord
deriving DecidableEq, Inhabited, Repr

/-- The keywords of `font-size`: seven absolute sizes and two relative ones. -/
inductive FontSizeKeyword
  | xxSmall
  | xSmall
  | small
  | medium
  | large
  | xLarge
  | xxLarge
  | larger
  | smaller
deriving DecidableEq, Repr

/-! ## Decoration lines -/

/-- A line that `text-decoration` draws. -/
inductive DecorationLine
  | underline
  | overline
  | lineThrough
  /-- Blinking text is asked for in the same way as a line. -/
  | blink
deriving DecidableEq, Repr

namespace DecorationLine

/-- Every line, in the order in which sets list them. -/
def all : List DecorationLine := [underline, overline, lineThrough, blink]

end DecorationLine

/-- A set of lines. -/
structure DecorationLines where
  underline : Bool
  overline : Bool
  lineThrough : Bool
  blink : Bool
deriving DecidableEq, Repr

namespace DecorationLines

def has (s : DecorationLines) : DecorationLine → Bool
  | .underline => s.underline
  | .overline => s.overline
  | .lineThrough => s.lineThrough
  | .blink => s.blink

/-- The set with exactly the given lines. -/
def ofLines (ls : List DecorationLine) : DecorationLines where
  underline := ls.contains .underline
  overline := ls.contains .overline
  lineThrough := ls.contains .lineThrough
  blink := ls.contains .blink

def none : DecorationLines := ofLines []

instance : Inhabited DecorationLines := ⟨none⟩

/-- The lines of a set, in the order of all. -/
def lines (s : DecorationLines) : List DecorationLine :=
  DecorationLine.all.filter s.has

/-- The lines of either set. -/
def union (s t : DecorationLines) : DecorationLines where
  underline := s.underline || t.underline
  overline := s.overline || t.overline
  lineThrough := s.lineThrough || t.lineThrough
  blink := s.blink || t.blink

@[simp] theorem has_ofLines (ls : List DecorationLine) (l : DecorationLine) :
    (ofLines ls).has l = ls.contains l := by
  cases l <;> rfl

@[simp] theorem has_union (s t : DecorationLines) (l : DecorationLine) :
    (s.union t).has l = (s.has l || t.has l) := by
  cases l <;> rfl

end DecorationLines

end StyleEngine
