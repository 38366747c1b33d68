/-!
# Outcomes of a match

A failure says how far it reaches. A walk over candidates goes on after a failure that is only
local, and stops at anything else.
-/

namespace StyleEngine

inductive Outcome
  | accepted
  /-- Fails here; another candidate may still match. -/
  | failsLocal
  /-- Fails here and for every ancestor of the element. -/
  | failsSubtree
deriving DecidableEq, Repr

namespace Outcome

def isMatch : Outcome → Bool
  | accepted => true
  | failsLocal | failsSubtree => false

end Outcome

/-- The mode of a document. With `quirks`, ids and classes are compared without regard to case,
and a bare `:hover` or `:active` holds of links and focusable elements only. -/
inductive DocumentMode
  | standards
  | quirks
deriving DecidableEq, Repr

end StyleEngine
