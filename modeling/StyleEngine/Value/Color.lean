/-!
# Colors
-/

namespace StyleEngine

/-- A color with its opacity. -/
structure Rgba where
  red : UInt8
  green : UInt8
  blue : UInt8
  alpha : UInt8
deriving DecidableEq, Repr

namespace Rgba

def black : Rgba := ⟨0, 0, 0, 255⟩
def transparent : Rgba := ⟨0, 0, 0, 0⟩

end Rgba

/-- A color, or a reference to the color of the element. -/
inductive Color
  | currentColor
  | rgba (color : Rgba)
deriving DecidableEq, Repr

namespace Color

instance : Inhabited Color := ⟨currentColor⟩

/-- The color meant where the element has the color `current`. -/
def resolve (current : Rgba) : Color → Rgba
  | currentColor => current
  | rgba color => color

end Color

end StyleEngine
