import StyleEngine.Property.Basic
import StyleEngine.Value.Specified

/-!
# Declarations
-/

namespace StyleEngine

/-- A property with a value, possibly marked as important. -/
structure Declaration where
  property : PropertyId
  value : Value
  important : Bool
deriving BEq

/-- The declarations of one rule, or of one element, in the order in which they are written. -/
abbrev DeclarationBlock := List Declaration

end StyleEngine
