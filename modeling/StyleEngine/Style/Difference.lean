import StyleEngine.Style.Computed

/-!
# The cost of a change of style

A change from one computed style to another is classified by the least work that makes the picture
right again. Classes are ordered by cost, and the class of a change is the greatest that any part
of it calls for. Groups that the two styles share are not looked into.

## Main definitions

* `Difference`: the classes.
* `ComputedStyle.difference`: the class of a change, pseudo-element styles included.
-/

namespace StyleEngine

/-- Classes of change, cheapest first. -/
inductive Difference
  | equal
  /-- Repaint only. -/
  | visible
  /-- Only the offset of a positioned box moved. -/
  | position
  /-- The box itself needs layout. -/
  | layout
  /-- The containing block needs layout. -/
  | containingBlockLayout
deriving DecidableEq, Repr

namespace Difference

def cost : Difference → Nat
  | equal => 0
  | visible => 1
  | position => 2
  | layout => 3
  | containingBlockLayout => 4

instance : LE Difference := ⟨fun a b => a.cost ≤ b.cost⟩
instance (a b : Difference) : Decidable (a ≤ b) := inferInstanceAs (Decidable (a.cost ≤ b.cost))
instance : Max Difference := maxOfLe

/-- The first line and the selection never call for layout on their own. -/
def cappedFor (d : Difference) : PseudoElement → Difference
  | .firstLine | .selection => if d = equal then equal else visible
  | _ => d

end Difference

namespace OwnStyle

/-- Whether the change reaches the containing block. -/
def needsContainingBlockLayout (a b : OwnStyle) : Bool :=
  let sizing := a.sizing.value
  let sizing' := b.sizing.value
  let typography := a.typography.value
  let typography' := b.typography.value
  (!a.sizing.same b.sizing &&
    (sizing.width != sizing'.width || sizing.height != sizing'.height ||
      sizing.minWidth != sizing'.minWidth || sizing.minHeight != sizing'.minHeight ||
      sizing.maxWidth != sizing'.maxWidth || sizing.maxHeight != sizing'.maxHeight ||
      sizing.boxSizing != sizing'.boxSizing)) ||
  a.visual.value.clip != b.visual.value.clip ||
  (a.box.display != b.box.display || a.box.position != b.box.position ||
    a.box.float != b.box.float) ||
  (!a.typography.same b.typography &&
    (typography.textIndent != typography'.textIndent ||
      typography.lineHeight != typography'.lineHeight ||
      typography.listStyleImage != typography'.listStyleImage ||
      typography.font != typography'.font ||
      typography.letterSpacing != typography'.letterSpacing ||
      typography.wordSpacing != typography'.wordSpacing ||
      typography.borderSpacingHorizontal != typography'.borderSpacingHorizontal ||
      typography.borderSpacingVertical != typography'.borderSpacingVertical)) ||
  (b.box.display.isTablePart &&
    (a.inherited.emptyCells != b.inherited.emptyCells ||
      a.inherited.captionSide != b.inherited.captionSide ||
      a.inherited.borderCollapse != b.inherited.borderCollapse ||
      a.box.tableLayout != b.box.tableLayout))

/-- Whether the box itself has to be laid out again. -/
def needsLayout (a b : OwnStyle) : Bool :=
  (b.box.display == .listItem &&
    (a.inherited.listStyleType != b.inherited.listStyleType ||
      a.inherited.listStylePosition != b.inherited.listStylePosition)) ||
  a.inherited.textAlign != b.inherited.textAlign ||
  a.inherited.textTransform != b.inherited.textTransform ||
  a.inherited.direction != b.inherited.direction ||
  a.inherited.whiteSpace != b.inherited.whiteSpace ||
  a.box.clear != b.box.clear ||
  a.box.overflowX != b.box.overflowX ||
  a.box.overflowY != b.box.overflowY ||
  a.sizing.value.verticalAlign != b.sizing.value.verticalAlign ||
  a.textEffects.value.wordWrap != b.textEffects.value.wordWrap ||
  a.typography.value.widows != b.typography.value.widows ||
  a.typography.value.orphans != b.typography.value.orphans ||
  a.typography.value.quotes != b.typography.value.quotes ||
  a.generated != b.generated

/-- Whether offsets, margins, paddings or the measures of borders changed. -/
def geometryChanged (a b : OwnStyle) : Bool :=
  let frame := a.frame.value
  let frame' := b.frame.value
  !a.frame.same b.frame &&
    (frame.offset != frame'.offset || frame.margin != frame'.margin ||
      frame.padding != frame'.padding || frame.border.widths != frame'.border.widths ||
      frame.border.styles != frame'.border.styles)

/-- Whether the new box can be moved without layout: a relative box, or one whose place is fixed on
both axes, in which nothing but the offset changed. -/
def movesOnly (a b : OwnStyle) : Bool :=
  let offset := b.frame.value.offset
  a.frame.value.sameBox b.frame.value && b.box.position.isPositioned &&
    (b.box.position == .relative ||
      (!(offset.left.isAuto && offset.right.isAuto) &&
        !(offset.top.isAuto && offset.bottom.isAuto)))

/-- Whether only the picture changed. -/
def needsRepaint (a b : OwnStyle) : Bool :=
  a.typography.value.color != b.typography.value.color ||
  a.inherited.visibility != b.inherited.visibility ||
  a.inherited.decorationsInEffect != b.inherited.decorationsInEffect ||
  a.visual.value.textDecoration != b.visual.value.textDecoration ||
  a.background != b.background ||
  a.frame.value.border.colors != b.frame.value.border.colors ||
  a.effects != b.effects ||
  a.textEffects.value.textShadow != b.textEffects.value.textShadow ||
  a.sizing.value.zIndex != b.sizing.value.zIndex

/-- The class of a change, without pseudo-element styles. -/
def difference (a b : OwnStyle) : Difference :=
  if needsContainingBlockLayout a b then .containingBlockLayout
  else if needsLayout a b then .layout
  else if geometryChanged a b then (if movesOnly a b then .position else .layout)
  else if needsRepaint a b then .visible
  else .equal

end OwnStyle

namespace ComputedStyle

mutual
/-- The class of the change from `old` to `new`. -/
def difference (old new : ComputedStyle) : Difference :=
  match old with
  | ⟨own, pseudos⟩ =>
    let base := own.difference new.own
    if base = .containingBlockLayout then base
    else
      (PseudoElement.all.map fun p => (pseudoDifference new p pseudos).cappedFor p).foldl max base
/-- The class of the change from the style of `p` among `pseudos` to that in `new`. A style that
comes or goes means layout. -/
def pseudoDifference (new : ComputedStyle) (p : PseudoElement)
    (pseudos : List (PseudoElement × ComputedStyle)) : Difference :=
  match pseudos with
  | [] => if (new.pseudo? p).isSome then .layout else .equal
  | (q, old) :: rest =>
    if q = p then
      match new.pseudo? p with
      | some new => difference old new
      | none => .layout
    else pseudoDifference new p rest
end

end ComputedStyle

end StyleEngine
