import StyleEngine.Computation.Adjust
import StyleEngine.Computation.Value
import StyleEngine.Property.Declaration
import StyleEngine.Style.Computed

/-!
# From declarations to a style

Declarations are applied in order, so the last one of a property wins. Those that choose the font
come first: their lengths are relative to the font that is inherited, all other lengths to the font
that results.

## Main definitions

* `StyleContext`: what a style hangs on besides the declarations.
* `StyleContext.apply`: the style that a list of declarations comes to.
-/

namespace StyleEngine

/-- What a style hangs on besides the declarations. -/
structure StyleContext where
  /-- The style that new styles start from. -/
  initial : ComputedStyle
  settings : Settings
  metrics : FontMetrics
  /-- The style of the parent, or of the element that a pseudo-element belongs to. -/
  parent : Option ComputedStyle
  pseudo : Option PseudoElement
  isRoot : Bool
  /-- The font size of the root element. -/
  rootFontSize : Float32

namespace StyleContext

/-- The style that values are inherited from; the root inherits initial values. -/
def inherited (c : StyleContext) : ComputedStyle :=
  c.parent.getD c.initial

/-- The style to start from. -/
def fresh (c : StyleContext) : ComputedStyle :=
  match c.pseudo with
  | none => .freshFor c.initial c.parent
  | some p => .freshPseudo c.initial p c.parent

/-- The scale of a font. -/
def scale (c : StyleContext) (font : Font) (rootFontSize : Float32) : LengthScale :=
  ⟨font.size, c.metrics font, rootFontSize⟩

/-- Lengths in font properties are relative to the font that is inherited. -/
def fontScale (c : StyleContext) : LengthScale :=
  c.scale c.inherited.font c.rootFontSize

/-- All other lengths are relative to the font of the style itself. -/
def ownScale (c : StyleContext) (s : OwnStyle) : LengthScale :=
  let font := s.typography.value.font
  c.scale font (if c.isRoot then font.size else c.rootFontSize)

/-- The assignments that a declaration comes to. A property that is not understood comes to
none. -/
def assignments (c : StyleContext) (scale : LengthScale) (d : Declaration) :
    Except StyleError (List Assignment) :=
  match d.property with
  | .unknown _ => .ok []
  | .known p =>
    match d.value with
    | .inherit => .ok (p.assignmentsFrom c.inherited.own)
    | .initial => .ok (p.assignmentsFrom c.initial.own)
    | v =>
      match p.compute? ⟨c.settings, c.inherited.own, scale⟩ v with
      | some l => .ok l
      | none => .error (.misfit p)

/-- Applies one declaration. -/
def applyOne (c : StyleContext) (stamp : Stamp) (scale : LengthScale) (s : OwnStyle)
    (d : Declaration) : Except StyleError OwnStyle :=
  (c.assignments scale d).map fun l => l.foldl (OwnStyle.assign stamp) s

/-- Applies declarations in order. -/
def applyAll (c : StyleContext) (stamp : Stamp) (scale : LengthScale) (s : OwnStyle)
    (ds : List Declaration) : Except StyleError OwnStyle :=
  ds.foldlM (c.applyOne stamp scale) s

/-- The style that declarations come to, later ones winning. -/
def apply (c : StyleContext) (stamp : Stamp) (ds : List Declaration) :
    Except StyleError ComputedStyle := do
  let fresh := c.fresh
  let (fonts, others) := ds.partition (·.property.isFont)
  let own ← c.applyAll stamp c.fontScale fresh.own fonts
  let own ← c.applyAll stamp (c.ownScale own) own others
  pure { fresh with own := own.adjust stamp c.isRoot }

end StyleContext

end StyleEngine
