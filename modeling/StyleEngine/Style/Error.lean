import StyleEngine.Property.Basic

/-!
# Misuse of styles

Values and pseudo-element styles come from other programs, which promise that they fit. A broken
promise ends the computation.
-/

namespace StyleEngine

inductive StyleError
  /-- A declaration has a value of a kind that its property does not accept. -/
  | misfit (property : Property)
  /-- A style that is for no pseudo-element was to be attached as one. -/
  | untypedPseudo
deriving DecidableEq, Repr

namespace StyleError

def message : StyleError → String
  | misfit p => "value does not fit " ++ p.name
  | untypedPseudo => "pseudo style without a style type"

end StyleError

end StyleEngine
