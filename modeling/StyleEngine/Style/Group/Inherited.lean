import StyleEngine.Value.Computed

/-!
# Groups that are inherited

The two groups that a style shares with the style it inherits from, until it writes to them.

## Main definitions

* `TextEffects`, `Typography`: the two groups.
* `Font`: the part of `Typography` that lengths are relative to.
-/

namespace StyleEngine

/-- Text shadows and word wrapping. -/
structure TextEffects where
  textShadow : List Shadow
  wordWrap : WordWrap
deriving BEq

namespace TextEffects

def initial : TextEffects := ⟨[], .normal⟩

inductive Field
  | textShadow
  | wordWrap
deriving DecidableEq, Repr

abbrev Field.Value : Field → Type
  | .textShadow => List Shadow
  | .wordWrap => WordWrap

instance : (f : Field) → BEq f.Value
  | .textShadow => inferInstanceAs (BEq (List Shadow))
  | .wordWrap => inferInstanceAs (BEq WordWrap)

def get (g : TextEffects) : (f : Field) → f.Value
  | .textShadow => g.textShadow
  | .wordWrap => g.wordWrap

def set (g : TextEffects) : (f : Field) → f.Value → TextEffects
  | .textShadow, v => { g with textShadow := v }
  | .wordWrap, v => { g with wordWrap := v }

end TextEffects

structure Font where
  families : List String
  /-- The size before it was raised to the least one allowed. -/
  specifiedSize : Float32
  size : Float32
  weight : UInt16
  style : FontStyle
  variant : FontVariant
deriving BEq

namespace Font

/-- The initial font, with the given size. -/
def initial (size : Float32) : Font :=
  ⟨[], size, size, 400, .normal, .normal⟩

end Font

/-- Color, font, spacing and what else text inherits. -/
structure Typography where
  color : Rgba
  font : Font
  lineHeight : LineHeight
  textIndent : Length
  letterSpacing : Float32
  wordSpacing : Float32
  borderSpacingHorizontal : Float32
  borderSpacingVertical : Float32
  listStyleImage : Option String
  /-- Pairs of an opening and a closing quote; without a list they are chosen elsewhere. -/
  quotes : Option (List (String × String))
  widows : UInt16
  orphans : UInt16
deriving BEq

namespace Typography

/-- The initial contents, with the given font size. -/
def initial (fontSize : Float32) : Typography where
  color := .black
  font := .initial fontSize
  lineHeight := .normal
  textIndent := .zero
  letterSpacing := 0
  wordSpacing := 0
  borderSpacingHorizontal := 0
  borderSpacingVertical := 0
  listStyleImage := none
  quotes := none
  widows := 2
  orphans := 2

inductive Field
  | color
  | fontFamilies
  | specifiedFontSize
  | fontSize
  | fontWeight
  | fontStyle
  | fontVariant
  | lineHeight
  | textIndent
  | letterSpacing
  | wordSpacing
  | borderSpacingHorizontal
  | borderSpacingVertical
  | listStyleImage
  | quotes
  | widows
  | orphans
deriving DecidableEq, Repr

abbrev Field.Value : Field → Type
  | .color => Rgba
  | .fontFamilies => List String
  | .specifiedFontSize | .fontSize | .letterSpacing | .wordSpacing | .borderSpacingHorizontal
  | .borderSpacingVertical => Float32
  | .fontWeight | .widows | .orphans => UInt16
  | .fontStyle => FontStyle
  | .fontVariant => FontVariant
  | .lineHeight => LineHeight
  | .textIndent => Length
  | .listStyleImage => Option String
  | .quotes => Option (List (String × String))

instance : (f : Field) → BEq f.Value
  | .color => inferInstanceAs (BEq Rgba)
  | .fontFamilies => inferInstanceAs (BEq (List String))
  | .specifiedFontSize | .fontSize | .letterSpacing | .wordSpacing | .borderSpacingHorizontal
  | .borderSpacingVertical => inferInstanceAs (BEq Float32)
  | .fontWeight | .widows | .orphans => inferInstanceAs (BEq UInt16)
  | .fontStyle => inferInstanceAs (BEq FontStyle)
  | .fontVariant => inferInstanceAs (BEq FontVariant)
  | .lineHeight => inferInstanceAs (BEq LineHeight)
  | .textIndent => inferInstanceAs (BEq Length)
  | .listStyleImage => inferInstanceAs (BEq (Option String))
  | .quotes => inferInstanceAs (BEq (Option (List (String × String))))

def get (g : Typography) : (f : Field) → f.Value
  | .color => g.color
  | .fontFamilies => g.font.families
  | .specifiedFontSize => g.font.specifiedSize
  | .fontSize => g.font.size
  | .fontWeight => g.font.weight
  | .fontStyle => g.font.style
  | .fontVariant => g.font.variant
  | .lineHeight => g.lineHeight
  | .textIndent => g.textIndent
  | .letterSpacing => g.letterSpacing
  | .wordSpacing => g.wordSpacing
  | .borderSpacingHorizontal => g.borderSpacingHorizontal
  | .borderSpacingVertical => g.borderSpacingVertical
  | .listStyleImage => g.listStyleImage
  | .quotes => g.quotes
  | .widows => g.widows
  | .orphans => g.orphans

def set (g : Typography) : (f : Field) → f.Value → Typography
  | .color, v => { g with color := v }
  | .fontFamilies, v => { g with font.families := v }
  | .specifiedFontSize, v => { g with font.specifiedSize := v }
  | .fontSize, v => { g with font.size := v }
  | .fontWeight, v => { g with font.weight := v }
  | .fontStyle, v => { g with font.style := v }
  | .fontVariant, v => { g with font.variant := v }
  | .lineHeight, v => { g with lineHeight := v }
  | .textIndent, v => { g with textIndent := v }
  | .letterSpacing, v => { g with letterSpacing := v }
  | .wordSpacing, v => { g with wordSpacing := v }
  | .borderSpacingHorizontal, v => { g with borderSpacingHorizontal := v }
  | .borderSpacingVertical, v => { g with borderSpacingVertical := v }
  | .listStyleImage, v => { g with listStyleImage := v }
  | .quotes, v => { g with quotes := v }
  | .widows, v => { g with widows := v }
  | .orphans, v => { g with orphans := v }

end Typography

end StyleEngine
