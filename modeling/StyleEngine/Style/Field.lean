import StyleEngine.Style.Group.Box
import StyleEngine.Style.Group.Inherited
import StyleEngine.Style.Group.Keyword
import StyleEngine.Style.Shared

/-!
# The fields of a style

A style without its pseudo-element styles is eight shared groups and two keyword records. A `Field`
names one value in it, whichever group it stands in.

Writing a value that equals the stored one leaves the group alone, so that it stays shared. Equality
is that of the values, in which zeros of either sign are equal. Any other write gives the style a
group of its own. Keywords belong to no group and are always written.

## Main definitions

* `OwnStyle`: groups and keywords.
* `OwnStyle.get`, `OwnStyle.set`: read and write a field.
-/

namespace StyleEngine

/-- The groups and keywords of a style. -/
structure OwnStyle where
  sizing : Shared Sizing
  visual : Shared Visual
  background : Shared Background
  frame : Shared Frame
  generated : Shared Generated
  effects : Shared Effects
  textEffects : Shared TextEffects
  typography : Shared Typography
  inherited : InheritedKeywords
  box : BoxKeywords
deriving BEq

/-- One value of a style. -/
inductive Field
  | sizing (f : Sizing.Field)
  | visual (f : Visual.Field)
  | background (f : Background.Field)
  | frame (f : Frame.Field)
  | generated (f : Generated.Field)
  | effects (f : Effects.Field)
  | textEffects (f : TextEffects.Field)
  | typography (f : Typography.Field)
  | inherited (f : InheritedKeywords.Field)
  | box (f : BoxKeywords.Field)
deriving DecidableEq, Repr

namespace Field

abbrev Value : Field → Type
  | sizing f => f.Value
  | visual f => f.Value
  | background f => f.Value
  | frame f => f.Value
  | generated f => f.Value
  | effects f => f.Value
  | textEffects f => f.Value
  | typography f => f.Value
  | inherited f => f.Value
  | box f => f.Value

end Field

namespace OwnStyle

/-- The initial style, with the given size of a medium font. All groups are new. -/
def initial (stamp : Stamp) (mediumPx : Float32) : OwnStyle where
  sizing := .write stamp .initial
  visual := .write stamp .initial
  background := .write stamp .initial
  frame := .write stamp .initial
  generated := .write stamp .initial
  effects := .write stamp .initial
  textEffects := .write stamp .initial
  typography := .write stamp (.initial mediumPx)
  inherited := default
  box := default

/-- The stored value of a field. -/
def get (s : OwnStyle) : (f : Field) → f.Value
  | .sizing f => s.sizing.value.get f
  | .visual f => s.visual.value.get f
  | .background f => s.background.value.get f
  | .frame f => s.frame.value.get f
  | .generated f => s.generated.value.get f
  | .effects f => s.effects.value.get f
  | .textEffects f => s.textEffects.value.get f
  | .typography f => s.typography.value.get f
  | .inherited f => s.inherited.get f
  | .box f => s.box.get f

/-- The style with a value written to a field. -/
def set (stamp : Stamp) (s : OwnStyle) : (f : Field) → f.Value → OwnStyle
  | .sizing f, v =>
    if s.sizing.value.get f == v then s
    else { s with sizing := .write stamp (s.sizing.value.set f v) }
  | .visual f, v =>
    if s.visual.value.get f == v then s
    else { s with visual := .write stamp (s.visual.value.set f v) }
  | .background f, v =>
    if s.background.value.get f == v then s
    else { s with background := .write stamp (s.background.value.set f v) }
  | .frame f, v =>
    if s.frame.value.get f == v then s
    else { s with frame := .write stamp (s.frame.value.set f v) }
  | .generated f, v =>
    if s.generated.value.get f == v then s
    else { s with generated := .write stamp (s.generated.value.set f v) }
  | .effects f, v =>
    if s.effects.value.get f == v then s
    else { s with effects := .write stamp (s.effects.value.set f v) }
  | .textEffects f, v =>
    if s.textEffects.value.get f == v then s
    else { s with textEffects := .write stamp (s.textEffects.value.set f v) }
  | .typography f, v =>
    if s.typography.value.get f == v then s
    else { s with typography := .write stamp (s.typography.value.set f v) }
  | .inherited f, v => { s with inherited := s.inherited.set f v }
  | .box f, v => { s with box := s.box.set f v }

/-- Writes the whole font at once. -/
def setFont (stamp : Stamp) (s : OwnStyle) (font : Font) : OwnStyle :=
  if s.typography.value.font == font then s
  else { s with typography := .write stamp { s.typography.value with font := font } }

end OwnStyle

end StyleEngine
