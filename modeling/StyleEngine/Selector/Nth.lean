/-!
# Positions of the form `a·n + b`

The argument of `:nth-child()` and its relatives names every position `a·n + b` with `n` a natural
number. Positions are counted from one and are tested in 64-bit words; the two coefficients have 32
bits, so for the positions of any sibling list neither the subtraction nor the division leaves the
word.
-/

namespace StyleEngine

/-- The formula `step·n + offset`. -/
structure Nth where
  step : Int32
  offset : Int32
deriving DecidableEq, Repr

namespace Nth

/-- The positions `2n + 1`. -/
def odd : Nth := ⟨2, 1⟩

/-- The positions `2n`. -/
def even : Nth := ⟨2, 0⟩

/-- Whether `index` is `step·n + offset` for some natural `n`. A position that needs more than 63
bits is never one. -/
def contains (nth : Nth) (index : Nat) : Bool :=
  if index < 0x8000000000000000 then
    let position := Int64.ofNat index
    let step := nth.step.toInt64
    let distance := position - nth.offset.toInt64
    if step == 0 then position == nth.offset.toInt64
    else distance % step == 0 && 0 ≤ distance / step
  else false

end Nth

end StyleEngine
