import StyleEngine.Value.Computed

/-!
# Groups that are not inherited

Properties that are set together are stored together. Each group comes with its initial contents, a
type of its fields, and a read and a write for a field.

## Main definitions

* `Sizing`, `Visual`, `Background`, `Frame`, `Generated`, `Effects`: the six groups.
-/

namespace StyleEngine

/-- Sizes and stacking. -/
structure Sizing where
  width : Length
  height : Length
  minWidth : Length
  minHeight : Length
  maxWidth : Length
  maxHeight : Length
  verticalAlign : VerticalAlign
  boxSizing : BoxSizing
  /-- Without a number the level is `auto`. -/
  zIndex : Option Int32
deriving BEq

namespace Sizing

def initial : Sizing where
  width := .auto
  height := .auto
  minWidth := .zero
  minHeight := .zero
  maxWidth := .none
  maxHeight := .none
  verticalAlign := .keyword .baseline
  boxSizing := .contentBox
  zIndex := none

inductive Field
  | width
  | height
  | minWidth
  | minHeight
  | maxWidth
  | maxHeight
  | verticalAlign
  | boxSizing
  | zIndex
deriving DecidableEq, Repr

abbrev Field.Value : Field → Type
  | .width | .height | .minWidth | .minHeight | .maxWidth | .maxHeight => Length
  | .verticalAlign => VerticalAlign
  | .boxSizing => BoxSizing
  | .zIndex => Option Int32

instance : (f : Field) → BEq f.Value
  | .width | .height | .minWidth | .minHeight | .maxWidth | .maxHeight =>
    inferInstanceAs (BEq Length)
  | .verticalAlign => inferInstanceAs (BEq VerticalAlign)
  | .boxSizing => inferInstanceAs (BEq BoxSizing)
  | .zIndex => inferInstanceAs (BEq (Option Int32))

def get (g : Sizing) : (f : Field) → f.Value
  | .width => g.width
  | .height => g.height
  | .minWidth => g.minWidth
  | .minHeight => g.minHeight
  | .maxWidth => g.maxWidth
  | .maxHeight => g.maxHeight
  | .verticalAlign => g.verticalAlign
  | .boxSizing => g.boxSizing
  | .zIndex => g.zIndex

def set (g : Sizing) : (f : Field) → f.Value → Sizing
  | .width, v => { g with width := v }
  | .height, v => { g with height := v }
  | .minWidth, v => { g with minWidth := v }
  | .minHeight, v => { g with minHeight := v }
  | .maxWidth, v => { g with maxWidth := v }
  | .maxHeight, v => { g with maxHeight := v }
  | .verticalAlign, v => { g with verticalAlign := v }
  | .boxSizing, v => { g with boxSizing := v }
  | .zIndex, v => { g with zIndex := v }

end Sizing

/-- Clipping and decoration. -/
structure Visual where
  /-- The sides of the clip rectangle; without one nothing is clipped. -/
  clip : Option (Edges Length)
  /-- The lines set on the element itself. -/
  textDecoration : DecorationLines
deriving BEq

namespace Visual

def initial : Visual := ⟨none, .none⟩

inductive Field
  | clip
  | textDecoration
deriving DecidableEq, Repr

abbrev Field.Value : Field → Type
  | .clip => Option (Edges Length)
  | .textDecoration => DecorationLines

instance : (f : Field) → BEq f.Value
  | .clip => inferInstanceAs (BEq (Option (Edges Length)))
  | .textDecoration => inferInstanceAs (BEq DecorationLines)

def get (g : Visual) : (f : Field) → f.Value
  | .clip => g.clip
  | .textDecoration => g.textDecoration

def set (g : Visual) : (f : Field) → f.Value → Visual
  | .clip, v => { g with clip := v }
  | .textDecoration, v => { g with textDecoration := v }

end Visual

/-- Background and outline. -/
structure Background where
  color : Color
  image : Option String
  /-- The width as specified, whatever the style of the outline. -/
  outlineWidth : Float32
  outlineStyle : BorderStyle
  outlineColor : Color
deriving BEq

namespace Background

def initial : Background where
  color := .rgba .transparent
  image := none
  outlineWidth := 3
  outlineStyle := .none
  outlineColor := .currentColor

inductive Field
  | color
  | image
  | outlineWidth
  | outlineStyle
  | outlineColor
deriving DecidableEq, Repr

abbrev Field.Value : Field → Type
  | .color | .outlineColor => Color
  | .image => Option String
  | .outlineWidth => Float32
  | .outlineStyle => BorderStyle

instance : (f : Field) → BEq f.Value
  | .color | .outlineColor => inferInstanceAs (BEq Color)
  | .image => inferInstanceAs (BEq (Option String))
  | .outlineWidth => inferInstanceAs (BEq Float32)
  | .outlineStyle => inferInstanceAs (BEq BorderStyle)

def get (g : Background) : (f : Field) → f.Value
  | .color => g.color
  | .image => g.image
  | .outlineWidth => g.outlineWidth
  | .outlineStyle => g.outlineStyle
  | .outlineColor => g.outlineColor

def set (g : Background) : (f : Field) → f.Value → Background
  | .color, v => { g with color := v }
  | .image, v => { g with image := v }
  | .outlineWidth, v => { g with outlineWidth := v }
  | .outlineStyle, v => { g with outlineStyle := v }
  | .outlineColor, v => { g with outlineColor := v }

end Background

/-- The borders of a box. -/
structure Border where
  /-- Widths as specified, whatever the style of the side. -/
  widths : Edges Float32
  styles : Edges BorderStyle
  colors : Edges Color
deriving BEq

/-- Offsets, margins, paddings and borders. -/
structure Frame where
  offset : Edges Length
  margin : Edges Length
  padding : Edges Length
  border : Border
deriving BEq

namespace Frame

def initial : Frame where
  offset := .uniform .auto
  margin := .uniform .zero
  padding := .uniform .zero
  border := ⟨.uniform 3, .uniform .none, .uniform .currentColor⟩

/-- Whether paddings, margins and borders are equal; offsets may differ. -/
def sameBox (a b : Frame) : Bool :=
  a.padding == b.padding && a.margin == b.margin && a.border == b.border

inductive Field
  | offset (side : Side)
  | margin (side : Side)
  | padding (side : Side)
  | borderWidth (side : Side)
  | borderStyle (side : Side)
  | borderColor (side : Side)
deriving DecidableEq, Repr

abbrev Field.Value : Field → Type
  | .offset _ | .margin _ | .padding _ => Length
  | .borderWidth _ => Float32
  | .borderStyle _ => BorderStyle
  | .borderColor _ => Color

instance : (f : Field) → BEq f.Value
  | .offset _ | .margin _ | .padding _ => inferInstanceAs (BEq Length)
  | .borderWidth _ => inferInstanceAs (BEq Float32)
  | .borderStyle _ => inferInstanceAs (BEq BorderStyle)
  | .borderColor _ => inferInstanceAs (BEq Color)

def get (g : Frame) : (f : Field) → f.Value
  | .offset side => g.offset.get side
  | .margin side => g.margin.get side
  | .padding side => g.padding.get side
  | .borderWidth side => g.border.widths.get side
  | .borderStyle side => g.border.styles.get side
  | .borderColor side => g.border.colors.get side

def set (g : Frame) : (f : Field) → f.Value → Frame
  | .offset side, v => { g with offset := g.offset.set side v }
  | .margin side, v => { g with margin := g.margin.set side v }
  | .padding side, v => { g with padding := g.padding.set side v }
  | .borderWidth side, v => { g with border.widths := g.border.widths.set side v }
  | .borderStyle side, v => { g with border.styles := g.border.styles.set side v }
  | .borderColor side, v => { g with border.colors := g.border.colors.set side v }

end Frame

/-- Generated content and counters. -/
structure Generated where
  /-- Without a list the content is `normal`. -/
  content : Option (List ContentItem)
  counterIncrement : List CounterDirective
  counterReset : List CounterDirective
deriving DecidableEq, Repr

namespace Generated

def initial : Generated := ⟨none, [], []⟩

inductive Field
  | content
  | counterIncrement
  | counterReset
deriving DecidableEq, Repr

abbrev Field.Value : Field → Type
  | .content => Option (List ContentItem)
  | .counterIncrement | .counterReset => List CounterDirective

instance : (f : Field) → BEq f.Value
  | .content => inferInstanceAs (BEq (Option (List ContentItem)))
  | .counterIncrement | .counterReset => inferInstanceAs (BEq (List CounterDirective))

def get (g : Generated) : (f : Field) → f.Value
  | .content => g.content
  | .counterIncrement => g.counterIncrement
  | .counterReset => g.counterReset

def set (g : Generated) : (f : Field) → f.Value → Generated
  | .content, v => { g with content := v }
  | .counterIncrement, v => { g with counterIncrement := v }
  | .counterReset, v => { g with counterReset := v }

end Generated

/-- Opacity and box shadows. -/
structure Effects where
  opacity : Float32
  boxShadow : List Shadow
deriving BEq

namespace Effects

def initial : Effects := ⟨1, []⟩

inductive Field
  | opacity
  | boxShadow
deriving DecidableEq, Repr

abbrev Field.Value : Field → Type
  | .opacity => Float32
  | .boxShadow => List Shadow

instance : (f : Field) → BEq f.Value
  | .opacity => inferInstanceAs (BEq Float32)
  | .boxShadow => inferInstanceAs (BEq (List Shadow))

def get (g : Effects) : (f : Field) → f.Value
  | .opacity => g.opacity
  | .boxShadow => g.boxShadow

def set (g : Effects) : (f : Field) → f.Value → Effects
  | .opacity, v => { g with opacity := v }
  | .boxShadow, v => { g with boxShadow := v }

end Effects

end StyleEngine
