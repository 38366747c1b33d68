import StyleEngine.Style.Field

/-!
# Adjustments

Some values constrain each other. After all declarations are applied, a style is adjusted: boxes
that stand on their own get a display that can, floats and positions that cannot be together are
reset, decorations are passed on, and the two axes of overflow are made to agree.
-/

namespace StyleEngine

namespace BoxKeywords

/-- A box out of flow does not float. -/
def dropFloat (k : BoxKeywords) : BoxKeywords :=
  if k.position.isOutOfFlow then { k with float := .none } else k

/-- The root, floats and boxes out of flow stand on their own. -/
def blockify (isRoot : Bool) (k : BoxKeywords) : BoxKeywords :=
  if isRoot || k.position.isOutOfFlow || k.float != .none then
    { k with display := k.display.blockified }
  else k

/-- Rows cannot be moved relative to their place. -/
def holdRows (k : BoxKeywords) : BoxKeywords :=
  if k.position = .relative ∧ k.display.isRowLike then { k with position := .static } else k

/-- Keeps the display as it was, then settles display, float and position. A box that is not
displayed keeps its float and display. -/
def settleFlow (isRoot : Bool) (k : BoxKeywords) : BoxKeywords :=
  let k := { k with unadjustedDisplay := k.display }
  let k := if k.display = .none then k else k.dropFloat.blockify isRoot
  k.holdRows

/-- Tables do not scroll. -/
def dropScroll (k : BoxKeywords) (o : Overflow) : Overflow :=
  if k.display.isTable then
    match o with
    | .auto | .scroll => .visible
    | o => o
  else o

/-- A visible axis beside one that is not visible scrolls when it has to. -/
def pairOverflow (k : BoxKeywords) : BoxKeywords :=
  if k.overflowX = .visible ∧ k.overflowY ≠ .visible then { k with overflowX := .auto }
  else if k.overflowY = .visible ∧ k.overflowX ≠ .visible then { k with overflowY := .auto }
  else k

def settleOverflow (k : BoxKeywords) : BoxKeywords :=
  pairOverflow
    { k with
      overflowX := k.dropScroll k.overflowX
      overflowY := k.dropScroll k.overflowY }

/-- Whether decorations of ancestors stop at the box. -/
def isIsolated (k : BoxKeywords) : Bool :=
  k.display == .inlineBlock || k.display.isTable || k.float != .none || k.position.isOutOfFlow

end BoxKeywords

namespace OwnStyle

/-- A box that is not positioned has no level of its own. -/
def dropLevel (stamp : Stamp) (s : OwnStyle) : OwnStyle :=
  if s.box.position = .static then s.set stamp (.sizing .zIndex) none else s

/-- The lines in effect are those of the element and, unless it is isolated, those it inherits. -/
def passDecorations (s : OwnStyle) : OwnStyle :=
  let own := s.visual.value.textDecoration
  let lines := if s.box.isIsolated then own else s.inherited.decorationsInEffect.union own
  { s with inherited.decorationsInEffect := lines }

/-- The style with all values that constrain each other made to agree. -/
def adjust (stamp : Stamp) (isRoot : Bool) (s : OwnStyle) : OwnStyle :=
  let s := { s with box := s.box.settleFlow isRoot }
  let s := (s.dropLevel stamp).passDecorations
  { s with box := s.box.settleOverflow }

end OwnStyle

end StyleEngine
