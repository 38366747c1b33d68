import StyleEngine.Selector.Specificity

/-!
# Cascade order

Where a declaration comes from and whether it is important make up its level. Importance reverses
the order of the origins, so that users and user agents outrank authors. Within a level the
specificity of the selector decides, and then the place of the rule.

## Main definitions

* `Level.of`: the level of a declaration.
* `Priority`: what declarations are sorted by.
-/

namespace StyleEngine

/-- Where a declaration comes from. -/
inductive Origin
  | userAgent
  /-- Rules of the user agent for documents in quirks mode. -/
  | userAgentQuirks
  | user
  /-- Attributes other than `style` that stand for declarations. -/
  | presentationalHint
  | author
  /-- The `style` attribute of an element. -/
  | inline
deriving DecidableEq, Repr

/-- Levels of the cascade; the rank of a level rises from the first to the last. -/
inductive Level
  | userAgent
  | userAgentQuirks
  | user
  | presentationalHint
  | author
  | inline
  | authorImportant
  | inlineImportant
  | userImportant
  | userAgentImportant
deriving DecidableEq, Repr

namespace Level

/-- The level of a declaration. Presentational hints are never important. -/
def of (origin : Origin) (important : Bool) : Level :=
  match origin, important with
  | .userAgent, false => userAgent
  | .userAgentQuirks, false => userAgentQuirks
  | .user, false => user
  | .presentationalHint, _ => presentationalHint
  | .author, false => author
  | .inline, false => inline
  | .author, true => authorImportant
  | .inline, true => inlineImportant
  | .user, true => userImportant
  | .userAgent, true => userAgentImportant
  | .userAgentQuirks, true => userAgentImportant

def rank : Level → Nat
  | userAgent => 0
  | userAgentQuirks => 1
  | user => 2
  | presentationalHint => 3
  | author => 4
  | inline => 5
  | authorImportant => 6
  | inlineImportant => 7
  | userImportant => 8
  | userAgentImportant => 9

def isImportant : Level → Bool
  | authorImportant | inlineImportant | userImportant | userAgentImportant => true
  | _ => false

end Level

/-- The sort key of a declaration; of two declarations of one property the greater key wins. -/
structure Priority where
  level : Level
  specificity : Specificity
  /-- The place of the rule in the document. -/
  sourceOrder : UInt32
deriving DecidableEq, Repr

namespace Priority

/-- Level first, then specificity, then place. -/
def compare (a b : Priority) : Ordering :=
  (Ord.compare a.level.rank b.level.rank).then
    ((Ord.compare a.specificity b.specificity).then (Ord.compare a.sourceOrder b.sourceOrder))

instance : Ord Priority := ⟨compare⟩
instance : LT Priority := ltOfOrd
instance : LE Priority := leOfOrd

/-- The list in the order of the keys; equal keys stay in their order. -/
def sortBy {α : Type} (key : α → Priority) (l : List α) : List α :=
  l.mergeSort fun a b => (Ord.compare (key a) (key b)).isLE

end Priority

end StyleEngine
