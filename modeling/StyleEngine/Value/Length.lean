/-!
# Lengths

A specified length is a number with a unit. A computed one is a number of pixels, a percentage that
waits for layout, or a keyword. Numbers are 32-bit floats, and every operation rounds.

Equality on these types is that of the floats in them: zeros of either sign are equal, and what is
not a number equals nothing.
-/

namespace StyleEngine

/-- The greater of two numbers; what is not a number gives way to the other operand. Zeros of either
sign are equal, and of equal numbers the result is the second. -/
def maxPx (a b : Float32) : Float32 :=
  if a.isNaN then b else if b.isNaN then a else if b < a then a else b

/-- The number `x` held between zero and one. What is not a number stays so. -/
def clampUnit (x : Float32) : Float32 :=
  if x < 0 then 0 else if 1 < x then 1 else x

inductive LengthUnit
  | px
  | em
  | ex
  | rem
  | pt
  | pc
  | inch
  | cm
  | mm
  | percent
deriving DecidableEq, Repr

/-- A number with a unit. -/
structure SpecifiedLength where
  value : Float32
  unit : LengthUnit
deriving BEq

namespace SpecifiedLength

/-- Whether the length waits for a font. -/
def isFontRelative (l : SpecifiedLength) : Bool :=
  match l.unit with
  | .em | .ex | .rem => true
  | _ => false

end SpecifiedLength

/-- A computed length. -/
inductive Length
  | auto
  | none
  | fixed (px : Float32)
  | percent (value : Float32)
deriving BEq

namespace Length

instance : Inhabited Length := ⟨auto⟩

def zero : Length := fixed 0

def isAuto : Length → Bool
  | auto => true
  | _ => false

def isFixed : Length → Bool
  | fixed _ => true
  | _ => false

/-- The pixels of a fixed length. -/
def px? : Length → Option Float32
  | fixed px => some px
  | _ => Option.none

end Length

/-! ## Four sides -/

inductive Side
  | top
  | right
  | bottom
  | left
deriving DecidableEq, Repr

/-- One value for each side of a box. -/
structure Edges (α : Type) where
  top : α
  right : α
  bottom : α
  left : α
deriving BEq

namespace Edges

variable {α : Type}

/-- The same value on every side. -/
def uniform (a : α) : Edges α := ⟨a, a, a, a⟩

def get (e : Edges α) : Side → α
  | .top => e.top
  | .right => e.right
  | .bottom => e.bottom
  | .left => e.left

def set (e : Edges α) (side : Side) (a : α) : Edges α :=
  match side with
  | .top => { e with top := a }
  | .right => { e with right := a }
  | .bottom => { e with bottom := a }
  | .left => { e with left := a }

@[simp] theorem get_set (e : Edges α) (s t : Side) (a : α) :
    (e.set s a).get t = if s = t then a else e.get t := by
  cases s <;> cases t <;> rfl

end Edges

end StyleEngine
