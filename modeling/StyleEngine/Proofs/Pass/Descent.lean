import StyleEngine.Proofs.Pass.Naive

/-!
# Styles on the way down

Styles can be computed on the way down to an element from any element above it, given the style of
the parent of that one and the font size of the root. What they come to hangs on the declarations up
to the signs of zeros, and on no setting but those for fonts.

## Main definitions

* `NaivePass.Ground`: what the style of an element is computed from.
* `NaivePass.styleFrom`: the style at the end of a path.
* `NaivePass.groundAt`: the style of an element below another one.
* `NaivePass.AlikeAt`: two elements with the same declarations.

## Main statements

* `NaivePass.AlikeAt.plainForm_step`: elements that are alike get styles of one plain form.
* `NaivePass.plainForm_groundAt`, `NaivePass.AlikeAt.plainForm_groundAt`: so do elements below
  others, in passes that are alike, and siblings that are.
-/

namespace StyleEngine

variable {ε : Type}

namespace NaivePass

/-- What the style of an element is computed from: the style of its parent, and the font size of the
root. -/
structure Ground where
  parent : Option ComputedStyle
  rootFontSize : Float32

namespace Ground

/-- The ground with a plain style and a plain font size. -/
def plainForm (g : Ground) : Ground :=
  ⟨g.parent.map ComputedStyle.plainForm, plain g.rootFontSize⟩

theorem plainForm_eq_iff {g g' : Ground} :
    g.plainForm = g'.plainForm ↔
      g.parent.map ComputedStyle.plainForm = g'.parent.map ComputedStyle.plainForm ∧
        plain g.rootFontSize = plain g'.rootFontSize := by
  rw [plainForm, plainForm, mk.injEq]

end Ground

variable (n : NaivePass ε)

/-- The font size of the root that holds at an element: at the root itself, that of the settings. -/
def rootFontSizeAt (e : ε) (rootFontSize : Float32) : Float32 :=
  if n.tree.isRoot e then n.settings.defaultFontSize else rootFontSize

/-- The ground for the children of an element, given its style. -/
def below (e : ε) (rootFontSize : Float32) (style : ComputedStyle) : Ground :=
  ⟨some style, if n.tree.isRoot e then style.fontSize else rootFontSize⟩

theorem plainForm_below (e : ε) (rootFontSize : Float32) {style style' : ComputedStyle}
    (h : style.plainForm = style'.plainForm) :
    (n.below e rootFontSize style).plainForm = (n.below e rootFontSize style').plainForm := by
  refine Ground.plainForm_eq_iff.mpr ⟨congrArg some h, ?_⟩
  dsimp only [below]
  split
  · exact ComputedStyle.fontSize_eq_of_plainForm h
  · rfl

/-- The style of an element on a ground, and the ground for its children. -/
def step (e : ε) (g : Ground) : Except StyleError Ground := do
  let style ← n.styleUnder e g.parent (n.rootFontSizeAt e g.rootFontSize)
  pure (n.below e g.rootFontSize style)

/-- The ground for the children of the first element of a path that ends where the ground `g` is. -/
def styleFrom (g : Ground) : List ε → Except StyleError Ground
  | [] => .ok g
  | e :: path => do
    let g ← styleFrom g path
    n.step e g

/-- The ground for the children of `x`, where `e` is on the ground `start` and `x` is `e` or below
`e`. -/
def groundAt (start : Ground) (e x : ε) : Except StyleError Ground :=
  let path := (n.tree.ancestors x).take
    ((n.tree.ancestors x).length - (n.tree.ancestors e).length)
  n.styleFrom start (x :: path)

theorem groundAt_self (start : Ground) (e : ε) : n.groundAt start e e = n.step e start := by
  simp only [groundAt, Nat.sub_self, List.take_zero]
  rfl

theorem groundAt_child (start : Ground) {e x p : ε}
    (hx : n.tree.ancestors x = p :: n.tree.ancestors p)
    (hp : n.tree.ancestors e <:+ n.tree.ancestors p) :
    n.groundAt start e x = n.groundAt start e p >>= n.step x := by
  have hlength := hp.length_le
  simp only [groundAt, hx, List.length_cons, Nat.sub_add_comm hlength, List.take_succ_cons]
  rfl

variable {n} {n' : NaivePass ε} {e e' : ε}

/-- An element of one pass and one of another that styles are computed alike for: they have the same
declarations, up to the signs of zeros. -/
structure AlikeAt (n n' : NaivePass ε) (e e' : ε) : Prop where
  settings : n.settings.SameFonts n'.settings
  metrics : n.metrics = n'.metrics
  fair : n'.metrics.Fair
  isRoot : n.tree.isRoot e = n'.tree.isRoot e'
  declarations : ∀ target, (n.declarations e target).map Declaration.plainForm =
    (n'.declarations e' target).map Declaration.plainForm

namespace AlikeAt

variable (h : n.AlikeAt n' e e')

include h

theorem alike_contextOf {parent parent' : Option ComputedStyle}
    (hparent : parent.map ComputedStyle.plainForm = parent'.map ComputedStyle.plainForm)
    {rootFontSize rootFontSize' : Float32} (hsize : plain rootFontSize = plain rootFontSize') :
    (n.contextOf e parent rootFontSize).Alike (n'.contextOf e' parent' rootFontSize') where
  initial := congrArg (fun size => (ComputedStyle.initial 0 size).plainForm) h.settings.default
  settings := h.settings
  metrics := h.metrics
  fair := h.fair
  parent := hparent
  pseudo := rfl
  isRoot := h.isRoot
  rootFontSize := hsize

theorem pseudoElements : n.pseudoElements e = n'.pseudoElements e' := by
  refine List.filter_congr fun p _ => ?_
  have hdeclarations := congrArg List.isEmpty (h.declarations (some p))
  simp only [NaivePass.declarations, List.isEmpty_map] at hdeclarations
  rw [hdeclarations]

theorem plainForm_attachPseudos {c c' : StyleContext} (hc : c.Alike c') (ps : List PseudoElement)
    {style style' : ComputedStyle} (hs : style.plainForm = style'.plainForm) :
    (n.attachPseudos c e ps style).map ComputedStyle.plainForm =
      (n'.attachPseudos c' e' ps style').map ComputedStyle.plainForm := by
  induction ps generalizing style style' with
  | nil => exact congrArg Except.ok hs
  | cons p ps ih =>
    have hcontext : StyleContext.Alike
        { c with parent := some style, pseudo := some p, isRoot := false }
        { c' with parent := some style', pseudo := some p, isRoot := false } :=
      { hc with parent := congrArg some hs, pseudo := rfl, isRoot := rfl }
    rw [attachPseudos, attachPseudos]
    refine map_bind_congr (p := ComputedStyle.plainForm)
      (StyleContext.plainForm_apply hcontext 0 0 (h.declarations (some p)))
      fun {pseudo pseudo'} hpseudo => ?_
    have hexists : Styler.pseudoExists p pseudo = Styler.pseudoExists p pseudo' := by
      unfold Styler.pseudoExists
      rw [ComputedStyle.content_eq_of_plainForm hpseudo]
    rw [hexists]
    split
    · exact map_bind_congr (ComputedStyle.plainForm_attach hs hpseudo) ih
    · exact ih hs

theorem plainForm_styleUnder {parent parent' : Option ComputedStyle}
    (hparent : parent.map ComputedStyle.plainForm = parent'.map ComputedStyle.plainForm)
    {rootFontSize rootFontSize' : Float32} (hsize : plain rootFontSize = plain rootFontSize') :
    (n.styleUnder e parent rootFontSize).map ComputedStyle.plainForm =
      (n'.styleUnder e' parent' rootFontSize').map ComputedStyle.plainForm := by
  have hcontext := h.alike_contextOf hparent hsize
  rw [styleUnder, styleUnder, h.pseudoElements]
  exact map_bind_congr (p := ComputedStyle.plainForm)
    (StyleContext.plainForm_apply hcontext 0 0 (h.declarations none))
    fun hstyle => h.plainForm_attachPseudos hcontext _ hstyle

/-- On grounds of one plain form, elements that are alike lead to grounds of one plain form. -/
theorem plainForm_step {g g' : Ground} (hg : g.plainForm = g'.plainForm) :
    (n.step e g).map Ground.plainForm = (n'.step e' g').map Ground.plainForm := by
  obtain ⟨hparent, hsize⟩ := Ground.plainForm_eq_iff.mp hg
  have hat : plain (n.rootFontSizeAt e g.rootFontSize) =
      plain (n'.rootFontSizeAt e' g'.rootFontSize) := by
    rw [rootFontSizeAt, rootFontSizeAt, h.isRoot, h.settings.default]
    split
    · rfl
    · exact hsize
  refine map_bind_congr (h.plainForm_styleUnder hparent hat)
    fun {style style'} hstyle => congrArg Except.ok (Ground.plainForm_eq_iff.mpr ?_)
  refine ⟨congrArg some hstyle, ?_⟩
  dsimp only [below]
  rw [h.isRoot]
  split
  · exact ComputedStyle.fontSize_eq_of_plainForm hstyle
  · exact hsize

end AlikeAt

theorem AlikeAt.refl (hfair : n.metrics.Fair) : n.AlikeAt n e e :=
  ⟨.of_eq rfl, rfl, hfair, rfl, fun _ => rfl⟩

/-- A path comes to grounds of one plain form in passes that are alike along it. -/
theorem plainForm_styleFrom {path : List ε} (h : ∀ x ∈ path, n.AlikeAt n' x x) {g g' : Ground}
    (hg : g.plainForm = g'.plainForm) :
    (n.styleFrom g path).map Ground.plainForm = (n'.styleFrom g' path).map Ground.plainForm := by
  induction path with
  | nil => exact congrArg Except.ok hg
  | cons e path ih =>
    rw [List.forall_mem_cons] at h
    exact map_bind_congr (ih h.2) h.1.plainForm_step

/-- So does every element below another one. -/
theorem plainForm_groundAt (htree : n.tree = n'.tree) (h : ∀ x, n.AlikeAt n' x x)
    {start start' : Ground} (hstart : start.plainForm = start'.plainForm) (e x : ε) :
    (n.groundAt start e x).map Ground.plainForm =
      (n'.groundAt start' e x).map Ground.plainForm := by
  rw [groundAt, groundAt, htree]
  exact plainForm_styleFrom (fun x _ => h x) hstart

/-- Elements that are alike and have the same ancestors come to grounds of one plain form. -/
theorem AlikeAt.plainForm_groundAt {x y : ε} (h : n.AlikeAt n x y)
    (hancestors : n.tree.ancestors x = n.tree.ancestors y) (start : Ground) (e : ε) :
    (n.groundAt start e x).map Ground.plainForm = (n.groundAt start e y).map Ground.plainForm := by
  rw [groundAt, groundAt, hancestors]
  exact map_bind_congr rfl h.plainForm_step

end NaivePass

end StyleEngine
