import StyleEngine.Style.Error
import StyleEngine.Style.Field

/-!
# Computed styles

The style of an element together with the styles of its pseudo-elements. Each pseudo-element has at
most one style, and the styles keep the order in which they were attached.

## Main definitions

* `ComputedStyle`: a style with its pseudo-element styles.
* `ComputedStyle.inheritFrom`: takes over the inherited groups of another style.
* `ComputedStyle.compactWith`: shares the groups that are equal by value.
* `ComputedStyle.attach`, `ComputedStyle.pseudo?`, `ComputedStyle.takeOut`: the styles of
  pseudo-elements as a map.
-/

namespace StyleEngine

structure ComputedStyle where
  own : OwnStyle
  pseudos : List (PseudoElement × ComputedStyle)

namespace ComputedStyle

/-! ## Equality -/

mutual
/-- Equality of groups and keywords, and of the pseudo-element styles in their order. -/
def beq (a b : ComputedStyle) : Bool :=
  match a, b with
  | ⟨own, pseudos⟩, ⟨own', pseudos'⟩ => own == own' && beqPseudos pseudos pseudos'
def beqPseudos (l m : List (PseudoElement × ComputedStyle)) : Bool :=
  match l, m with
  | [], [] => true
  | (p, a) :: l, (q, b) :: m => p == q && beq a b && beqPseudos l m
  | _, _ => false
end

instance : BEq ComputedStyle := ⟨beq⟩

/-! ## Fields -/

/-- The stored value of a field. -/
def get (s : ComputedStyle) (f : Field) : f.Value :=
  s.own.get f

/-- The style with a value written to a field. -/
def set (stamp : Stamp) (s : ComputedStyle) (f : Field) (v : f.Value) : ComputedStyle :=
  { s with own := s.own.set stamp f v }

def display (s : ComputedStyle) : Display := s.own.box.display
def position (s : ComputedStyle) : Position := s.own.box.position
def styleType (s : ComputedStyle) : Option PseudoElement := s.own.box.styleType
def font (s : ComputedStyle) : Font := s.own.typography.value.font
def fontSize (s : ComputedStyle) : Float32 := s.font.size

/-- Whether the box is positioned. -/
def isPositioned (s : ComputedStyle) : Bool := s.position.isPositioned

def isFloating (s : ComputedStyle) : Bool := s.own.box.float != .none

/-- The width of a border as it is drawn: nothing where the style of the side draws nothing. -/
def usedBorderWidth (s : ComputedStyle) (side : Side) : Float32 :=
  let border := s.own.frame.value.border
  if (border.styles.get side).hasWidth then border.widths.get side else 0

/-- The width of the outline as it is drawn. -/
def usedOutlineWidth (s : ComputedStyle) : Float32 :=
  let background := s.own.background.value
  if background.outlineStyle.hasWidth then background.outlineWidth else 0

/-! ## New styles -/

/-- The initial style, with the given size of a medium font and groups of its own. Styles are
started from one such style, whose groups they share. -/
def initial (stamp : Stamp) (mediumPx : Float32) : ComputedStyle :=
  ⟨.initial stamp mediumPx, []⟩

/-- Shares the inherited groups and takes the inherited keywords of `parent`. Content generated
before or after an element keeps its line breaks. -/
def inheritFrom (s parent : ComputedStyle) : ComputedStyle :=
  let inherited := parent.own.inherited
  { s with
    own.textEffects := parent.own.textEffects
    own.typography := parent.own.typography
    own.inherited :=
      match s.styleType with
      | some .before | some .after => { inherited with whiteSpace := .preLine }
      | _ => inherited }

/-- A style to start from: `initial`, with what it inherits from a parent, if there is one. -/
def freshFor (initial : ComputedStyle) : Option ComputedStyle → ComputedStyle
  | none => initial
  | some parent => initial.inheritFrom parent

/-- A style to start from for a pseudo-element, which inherits from the style of the element that it
belongs to, if there is one. -/
def freshPseudo (initial : ComputedStyle) (pseudo : PseudoElement) :
    Option ComputedStyle → ComputedStyle :=
  freshFor { initial with own.box.styleType := some pseudo }

/-! ## Sharing -/

/-- Shares with `similar` every group that equals its counterpart there. -/
def compactWith (s similar : ComputedStyle) : ComputedStyle :=
  { s with
    own.sizing := s.own.sizing.adopt similar.own.sizing
    own.visual := s.own.visual.adopt similar.own.visual
    own.background := s.own.background.adopt similar.own.background
    own.frame := s.own.frame.adopt similar.own.frame
    own.generated := s.own.generated.adopt similar.own.generated
    own.effects := s.own.effects.adopt similar.own.effects
    own.textEffects := s.own.textEffects.adopt similar.own.textEffects
    own.typography := s.own.typography.adopt similar.own.typography }

/-- For each of the eight groups, whether two styles share it. -/
def sharing (a b : ComputedStyle) : List Bool :=
  [a.own.sizing.same b.own.sizing,
    a.own.visual.same b.own.visual,
    a.own.background.same b.own.background,
    a.own.frame.same b.own.frame,
    a.own.generated.same b.own.generated,
    a.own.effects.same b.own.effects,
    a.own.textEffects.same b.own.textEffects,
    a.own.typography.same b.own.typography]

/-- The number of groups that two styles share. -/
def sharedGroupCount (a b : ComputedStyle) : Nat :=
  (sharing a b).count true

/-- Whether all that is not inherited is equal. -/
def sameBoxGroups (a b : ComputedStyle) : Bool :=
  a.own.sizing == b.own.sizing && a.own.visual == b.own.visual &&
    a.own.background == b.own.background && a.own.frame == b.own.frame &&
    a.own.generated == b.own.generated && a.own.effects == b.own.effects &&
    a.own.box == b.own.box

/-! ## Pseudo-element styles -/

/-- The style attached for a pseudo-element. -/
def pseudo? (s : ComputedStyle) (p : PseudoElement) : Option ComputedStyle :=
  (s.pseudos.find? (·.1 = p)).map Prod.snd

/-- The list with `style` for `p`: in the place of the style that `p` has, or else at the end. -/
def putPseudo (p : PseudoElement) (style : ComputedStyle) :
    List (PseudoElement × ComputedStyle) → List (PseudoElement × ComputedStyle)
  | [] => [(p, style)]
  | entry :: rest =>
    if entry.1 = p then (p, style) :: rest else entry :: putPseudo p style rest

/-- Attaches a style for the pseudo-element that it is for. A style for no pseudo-element cannot be
attached. -/
def attach (s style : ComputedStyle) : Except StyleError ComputedStyle :=
  match style.styleType with
  | some p => .ok { s with pseudos := putPseudo p style s.pseudos }
  | none => .error .untypedPseudo

/-- Takes the style of a pseudo-element out: that style, if there is one, and what is left. -/
def takeOut (s : ComputedStyle) (p : PseudoElement) : Option ComputedStyle × ComputedStyle :=
  match s.pseudos.findIdx? (·.1 = p) with
  | some i => ((s.pseudos[i]?).map Prod.snd, { s with pseudos := s.pseudos.eraseIdx i })
  | none => (none, s)

/-- The style without that of a pseudo-element. -/
def detach (s : ComputedStyle) (p : PseudoElement) : ComputedStyle :=
  { s with pseudos := s.pseudos.eraseP (·.1 = p) }

end ComputedStyle

end StyleEngine
