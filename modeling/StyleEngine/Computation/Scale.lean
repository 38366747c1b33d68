import StyleEngine.Style.Group.Inherited
import StyleEngine.Value.Specified

/-!
# From specified to computed lengths

Absolute units stand at 96 pixels to the inch. Relative units are multiples of a font, which a
`LengthScale` describes. Every formula is evaluated from left to right, and each step rounds.
-/

namespace StyleEngine

/-- The font that lengths are relative to. -/
structure LengthScale where
  fontSize : Float32
  xHeight : Float32
  rootFontSize : Float32

namespace LengthScale

/-- The pixels of a length; a percentage has none. -/
def px? (scale : LengthScale) (l : SpecifiedLength) : Option Float32 :=
  match l.unit with
  | .px => some l.value
  | .em => some (l.value * scale.fontSize)
  | .ex => some (l.value * scale.xHeight)
  | .rem => some (l.value * scale.rootFontSize)
  | .pt => some (l.value * 96 / 72)
  | .pc => some (l.value * 96 / 6)
  | .inch => some (l.value * 96)
  | .cm => some (l.value * 96 / 2.54)
  | .mm => some (l.value * 96 / 25.4)
  | .percent => none

/-- The computed length; a percentage stays one. -/
def length (scale : LengthScale) (l : SpecifiedLength) : Length :=
  match scale.px? l with
  | some px => .fixed px
  | none => .percent l.value

/-- The pixels of a length, with percentages of the font size. -/
def pxOfFont (scale : LengthScale) (l : SpecifiedLength) : Float32 :=
  (scale.px? l).getD (scale.fontSize * l.value / 100)

end LengthScale

namespace FontSizeKeyword

/-- The size that a keyword stands for, given the size of a medium font and that of the parent. -/
def size (keyword : FontSizeKeyword) (medium parent : Float32) : Float32 :=
  match keyword with
  | xxSmall => medium * (3 / 5)
  | xSmall => medium * (3 / 4)
  | small => medium * (8 / 9)
  | FontSizeKeyword.medium => medium * 1
  | large => medium * (6 / 5)
  | xLarge => medium * (3 / 2)
  | xxLarge => medium * 2
  | larger => parent * 1.2
  | smaller => parent / 1.2

end FontSizeKeyword

namespace FontWeight

/-- The number that a weight stands for, given that of the parent. -/
def resolve (parent : UInt16) : FontWeight → UInt16
  | weight value => value
  | bolder => if parent ≤ 300 then 400 else if parent ≤ 500 then 700 else 900
  | lighter => if parent ≤ 500 then 100 else if parent ≤ 700 then 400 else 700

end FontWeight

/-- The height of the letter `x` in a font. -/
abbrev FontMetrics := Font → Float32

namespace FontMetrics

/-- Half the size of the font. -/
def approximate : FontMetrics := fun font => font.size * 0.5

/-- A given multiple of the size of the font. -/
def ofRatio (ratio : Float32) : FontMetrics := fun font => font.size * ratio

end FontMetrics

end StyleEngine
