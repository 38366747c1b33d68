import StyleEngine.Pass.Restyle
import StyleEngine.Proofs.Computation.Apply

/-!
# Styles without a pass

The style of an element is defined by recursion on its ancestors: from the declarations that apply
to it, the style of its parent, and the font size of the root. Nothing is remembered from one
element to the next.

## Main definitions

* `NaivePass`: a tree with the declarations for each element.
* `NaivePass.style`: the style of an element.
* `NaivePass.Agrees`: a style that has the plain form of that of an element.

## Main statements

* `NaivePass.agrees_top`, `NaivePass.agrees_below`: a style computed as `NaivePass` says, from a
  parent that agrees, agrees.
-/

namespace StyleEngine

variable {ε : Type}

/-- A tree with the declarations for each element and pseudo-element, in cascade order. -/
structure NaivePass (ε : Type) where
  settings : Settings
  metrics : FontMetrics
  tree : StyledTree ε
  entries : ε → Option PseudoElement → List Entry

namespace NaivePass

variable (n : NaivePass ε)

def declarations (e : ε) (target : Option PseudoElement) : List Declaration :=
  (n.entries e target).map Entry.declaration

/-- The pseudo-elements with declarations, in the fixed order of all. -/
def pseudoElements (e : ε) : List PseudoElement :=
  PseudoElement.all.filter fun p => !(n.entries e (some p)).isEmpty

def contextOf (e : ε) (parent : Option ComputedStyle) (rootFontSize : Float32) :
    StyleContext where
  initial := .initial 0 n.settings.defaultFontSize
  settings := n.settings
  metrics := n.metrics
  parent := parent
  pseudo := none
  isRoot := n.tree.isRoot e
  rootFontSize := rootFontSize

/-- Attaches the styles of pseudo-elements that exist, one after the other. -/
def attachPseudos (c : StyleContext) (e : ε) :
    List PseudoElement → ComputedStyle → Except StyleError ComputedStyle
  | [], style => pure style
  | p :: rest, style => do
    let context := { c with parent := some style, pseudo := some p, isRoot := false }
    let pseudo ← context.apply 0 (n.declarations e (some p))
    if Styler.pseudoExists p pseudo then
      let style ← style.attach pseudo
      attachPseudos c e rest style
    else attachPseudos c e rest style

/-- The style of an element under a parent with the given style. -/
def styleUnder (e : ε) (parent : Option ComputedStyle) (rootFontSize : Float32) :
    Except StyleError ComputedStyle := do
  let context := n.contextOf e parent rootFontSize
  let style ← context.apply 0 (n.declarations e none)
  n.attachPseudos context e (n.pseudoElements e) style

/-- The style of an element with the given ancestors, and the font size of the topmost of them. -/
def styleAlong : ε → List ε → Except StyleError (ComputedStyle × Float32)
  | e, [] => do
    let style ← n.styleUnder e none n.settings.defaultFontSize
    pure (style, style.fontSize)
  | e, p :: ancestors => do
    let (parent, rootFontSize) ← styleAlong p ancestors
    let style ← n.styleUnder e (some parent) rootFontSize
    pure (style, rootFontSize)

/-- The style of an element. -/
def style (e : ε) : Except StyleError ComputedStyle :=
  (n.styleAlong e (n.tree.ancestors e)).map Prod.fst

/-- Whether all declarations for an element and its pseudo-elements fit. -/
def Fits (e : ε) : Prop :=
  ∀ target, ∀ d ∈ n.declarations e target, d.Fits

/-- A style of its own kind can be attached, so values that fit are all that a style takes. -/
theorem Fits.exists_styleUnder {n : NaivePass ε} {e : ε} (h : n.Fits e)
    (parent : Option ComputedStyle) (rootFontSize : Float32) :
    ∃ style, n.styleUnder e parent rootFontSize = .ok style := by
  have hattach (c : StyleContext) (ps : List PseudoElement) (style : ComputedStyle) :
      ∃ style', n.attachPseudos c e ps style = .ok style' := by
    induction ps generalizing style with
    | nil => exact ⟨style, rfl⟩
    | cons p ps ih =>
      obtain ⟨pseudo, hpseudo⟩ := StyleContext.exists_apply (h (some p))
        { c with parent := some style, pseudo := some p, isRoot := false } 0
      obtain ⟨attached, hattached⟩ :=
        ComputedStyle.exists_attach style (StyleContext.styleType_apply rfl hpseudo)
      rw [attachPseudos, hpseudo]
      change ∃ style', (if Styler.pseudoExists p pseudo then
        style.attach pseudo >>= n.attachPseudos c e ps else n.attachPseudos c e ps style) = _
      rw [hattached]
      split
      · exact ih attached
      · exact ih style
  obtain ⟨bare, hbare⟩ :=
    StyleContext.exists_apply (h none) (n.contextOf e parent rootFontSize) 0
  obtain ⟨style, hstyle⟩ := hattach (n.contextOf e parent rootFontSize) (n.pseudoElements e) bare
  refine ⟨style, ?_⟩
  rw [styleUnder, hbare]
  exact hstyle

/-- A style with the plain form of the style of `e`, and the font size of the root that goes with
it. -/
def Agrees (e : ε) (style : ComputedStyle) (rootFontSize : Float32) : Prop :=
  ∃ style' rootFontSize', n.styleAlong e (n.tree.ancestors e) = .ok (style', rootFontSize') ∧
    style.plainForm = style'.plainForm ∧ plain rootFontSize = plain rootFontSize'

/-! ## Agreement -/

variable {n} {e : ε}

theorem Agrees.exists_style {style : ComputedStyle} {rootFontSize : Float32}
    (h : n.Agrees e style rootFontSize) :
    ∃ style', n.style e = .ok style' ∧ style.plainForm = style'.plainForm := by
  obtain ⟨style', rootFontSize', hnaive, hstyle, -⟩ := h
  refine ⟨style', ?_, hstyle⟩
  rw [NaivePass.style, hnaive]
  rfl

theorem Agrees.plainForm_eq {style style' : ComputedStyle} {rootFontSize rootFontSize' : Float32}
    (h : n.Agrees e style rootFontSize) (h' : n.Agrees e style' rootFontSize') :
    style.plainForm = style'.plainForm := by
  obtain ⟨found, hfound, hstyle⟩ := h.exists_style
  obtain ⟨found', hfound', hstyle'⟩ := h'.exists_style
  obtain rfl := Except.ok.inj (hfound.symm.trans hfound')
  rw [hstyle, hstyle']

/-- The font size of the root goes with the element, not with the style. -/
theorem Agrees.with_rootFontSize {style style' : ComputedStyle}
    {rootFontSize rootFontSize' : Float32} (h : n.Agrees e style rootFontSize)
    (h' : n.Agrees e style' rootFontSize') :
    n.Agrees e style rootFontSize' := by
  obtain ⟨found, size, hfound, hstyle, -⟩ := h
  obtain ⟨found', size', hfound', -, hsize'⟩ := h'
  obtain ⟨rfl, rfl⟩ := Prod.mk.inj (Except.ok.inj (hfound.symm.trans hfound'))
  exact ⟨found, size, hfound, hstyle, hsize'⟩

theorem agrees_top {style style' : ComputedStyle} (htop : n.tree.ancestors e = [])
    (hnaive : n.styleUnder e none n.settings.defaultFontSize = .ok style')
    (h : style.plainForm = style'.plainForm) : n.Agrees e style style.fontSize := by
  refine ⟨style', style'.fontSize, ?_, h, ComputedStyle.fontSize_eq_of_plainForm h⟩
  rw [htop, styleAlong, hnaive]
  rfl

theorem agrees_below {p : ε} {parent : ComputedStyle} {rootFontSize : Float32}
    (hp : n.tree.ancestors e = p :: n.tree.ancestors p) (hparent : n.Agrees p parent rootFontSize) :
    ∃ parent' rootFontSize', parent.plainForm = parent'.plainForm ∧
      plain rootFontSize = plain rootFontSize' ∧
      ∀ {style style' : ComputedStyle},
        n.styleUnder e (some parent') rootFontSize' = .ok style' →
        style.plainForm = style'.plainForm → n.Agrees e style rootFontSize := by
  obtain ⟨parent', rootFontSize', hnaive, hstyle, hsize⟩ := hparent
  refine ⟨parent', rootFontSize', hstyle, hsize, fun {style style'} hunder h => ?_⟩
  refine ⟨style', rootFontSize', ?_, h, hsize⟩
  rw [hp, styleAlong, hnaive]
  simp only [hunder, bind, Except.bind]
  rfl

/-! ## Other trees -/

section Congruence

variable {n' : NaivePass ε} (hsettings : n'.settings = n.settings)
  (hmetrics : n'.metrics = n.metrics)

include hsettings hmetrics

theorem styleUnder_congr (hroot : n'.tree.isRoot e = n.tree.isRoot e)
    (h : n'.entries e = n.entries e) (parent : Option ComputedStyle) (rootFontSize : Float32) :
    n'.styleUnder e parent rootFontSize = n.styleUnder e parent rootFontSize := by
  have hpseudos (c : StyleContext) (ps : List PseudoElement) (style : ComputedStyle) :
      n'.attachPseudos c e ps style = n.attachPseudos c e ps style := by
    induction ps generalizing style with
    | nil => rfl
    | cons p ps ih => simp only [attachPseudos, declarations, h, ih]
  simp only [styleUnder, contextOf, declarations, pseudoElements, hpseudos, h, hsettings, hmetrics,
    hroot]

/-- A style hangs on the declarations for the element and its ancestors, and on which of them is the
root. -/
theorem styleAlong_congr {ancestors : List ε}
    (h : ∀ x ∈ e :: ancestors, n'.tree.isRoot x = n.tree.isRoot x ∧ n'.entries x = n.entries x) :
    n'.styleAlong e ancestors = n.styleAlong e ancestors := by
  induction ancestors generalizing e with
  | nil =>
    obtain ⟨hroot, hentries⟩ := h e List.mem_cons_self
    have hunder := styleUnder_congr hsettings hmetrics hroot hentries
    rw [styleAlong, styleAlong, hunder, hsettings]
  | cons p ancestors ih =>
    obtain ⟨hroot, hentries⟩ := h e List.mem_cons_self
    have hunder := styleUnder_congr hsettings hmetrics hroot hentries
    have hparent := ih fun x hx => h x (List.mem_cons_of_mem e hx)
    simp only [styleAlong, hparent, hunder]

end Congruence

end NaivePass

end StyleEngine
