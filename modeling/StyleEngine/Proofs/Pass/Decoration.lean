import StyleEngine.Proofs.Computation.Adjust
import StyleEngine.Proofs.Computation.Length
import StyleEngine.Proofs.Pass.Outcome

/-!
# Decorations along the ancestors

A style takes the lines in effect from the style that it inherits from and adds its own, unless it
is isolated, which is judged after its display, float and position are settled. In a pass these
steps chain up: the lines in effect at an element are those of the styles from the element up to the
first that is isolated.

## Main definitions

* `OwnStyle.LinesFrom`: a style has the lines in effect that come from given lines above it.
* `ComputedStyle.IsIsolated`: the lines of ancestors stop at a style.
* `InEffect`: a line is in effect at the start of a chain of styles.

## Main statements

* `StyleContext.linesFrom_apply`: what one computed style does to the lines.
* `Styler.passesLines_styleElement`: what the visit of an element does to them.
* `Styler.Reachable.lines_inEffect`: the lines in effect after a pass over a document.
-/

namespace StyleEngine

variable {ε : Type}

/-! ## One style -/

/-- The lines in effect are those of the style, and those `above` it unless it is isolated. -/
def OwnStyle.LinesFrom (s : OwnStyle) (above : DecorationLines) : Prop :=
  s.inherited.decorationsInEffect =
    if s.box.isIsolated then s.visual.value.textDecoration
    else above.union s.visual.value.textDecoration

theorem OwnStyle.LinesFrom.of_plainForm {s s' : OwnStyle} {above : DecorationLines}
    (h : s.LinesFrom above) (hplain : s'.plainForm = s.plainForm) : s'.LinesFrom above := by
  rw [LinesFrom, inherited_eq_of_plainForm hplain, box_eq_of_plainForm hplain,
    textDecoration_eq_of_plainForm hplain]
  exact h

namespace StyleContext

variable {c : StyleContext} {stamp : Stamp} {ds : List Declaration}

/-- A style starts with the lines in effect of the style that it inherits from. -/
theorem decorationsInEffect_fresh (c : StyleContext) :
    c.fresh.own.inherited.decorationsInEffect = c.inherited.own.inherited.decorationsInEffect := by
  have hinherit (s parent : ComputedStyle) :
      (s.inheritFrom parent).own.inherited.decorationsInEffect =
        parent.own.inherited.decorationsInEffect :=
    (get_inheritFrom s parent (f := .inherited .decorationsInEffect) nofun).trans (if_pos rfl)
  unfold fresh inherited
  cases c.pseudo <;> cases c.parent <;> first | rfl | exact hinherit _ _

theorem decorationsInEffect_assigned {own : OwnStyle} (h : c.assigned stamp ds = .ok own) :
    own.inherited.decorationsInEffect = c.inherited.own.inherited.decorationsInEffect := by
  have hkept := get_assigned (f := .inherited .decorationsInEffect)
    Property.decorationsInEffect_not_mem_fields h
  exact hkept.trans c.decorationsInEffect_fresh

/-- What is computed has the lines in effect that come from the style it inherits from. -/
theorem linesFrom_apply {s : ComputedStyle} (h : c.apply stamp ds = .ok s) :
    s.own.LinesFrom c.inherited.own.inherited.decorationsInEffect := by
  obtain ⟨own, hassigned, rfl⟩ := exists_of_apply h
  have hinherited (s : OwnStyle) : (s.dropLevel stamp).inherited = s.inherited := by
    rcases s.dropLevel_cases stamp with h | h <;> rw [h]
  rw [← decorationsInEffect_assigned hassigned]
  simp only [OwnStyle.LinesFrom, OwnStyle.adjust, OwnStyle.passDecorations,
    BoxKeywords.isIsolated_settleOverflow, OwnStyle.box_dropLevel, OwnStyle.visual_dropLevel,
    hinherited]

end StyleContext

/-! ## A style with its pseudo-elements -/

namespace ComputedStyle

/-- The lines in effect, those of ancestors included. -/
def linesInEffect (s : ComputedStyle) : DecorationLines :=
  s.own.inherited.decorationsInEffect

/-- The lines that a style adds. -/
def lines (s : ComputedStyle) : DecorationLines :=
  s.own.visual.value.textDecoration

/-- A style that has the lines in effect that come from `above`, with pseudo-elements that have
those that come from it. -/
structure PassesLines (above : DecorationLines) (s : ComputedStyle) : Prop where
  own : s.own.LinesFrom above
  pseudo : ∀ entry ∈ s.pseudos, entry.2.own.LinesFrom s.linesInEffect

namespace PassesLines

variable {above : DecorationLines} {s s' : ComputedStyle}

theorem attach (h : s.PassesLines above) {style : ComputedStyle}
    (hstyle : style.own.LinesFrom s.linesInEffect) (hattach : s.attach style = .ok s') :
    s'.PassesLines above := by
  unfold ComputedStyle.attach at hattach
  split at hattach
  · obtain rfl := Except.ok.inj hattach
    refine ⟨h.own, fun entry hentry => ?_⟩
    rcases mem_putPseudo hentry with rfl | hentry
    · exact hstyle
    · exact h.pseudo entry hentry
  · cases hattach

theorem of_plainForm (h : s.PassesLines above) (hplain : s'.plainForm = s.plainForm) :
    s'.PassesLines above := by
  have hown := own_eq_of_plainForm hplain
  refine ⟨h.own.of_plainForm hown, fun entry hentry => ?_⟩
  obtain ⟨entry', hentry', -, hstyle⟩ := exists_mem_pseudos_of_plainForm hplain hentry
  rw [linesInEffect, OwnStyle.inherited_eq_of_plainForm hown]
  exact (h.pseudo entry' hentry').of_plainForm (own_eq_of_plainForm hstyle).symm

end PassesLines

end ComputedStyle

/-! ## Chains of styles -/

namespace ComputedStyle

/-- The lines of ancestors stop at inline blocks, tables, floats and boxes out of the flow. -/
def IsIsolated (s : ComputedStyle) : Prop :=
  s.display ∈ [.inlineBlock, .table, .inlineTable] ∨ s.isFloating = true ∨
    s.position ∈ [.absolute, .fixed]

theorem isIsolated_iff {s : ComputedStyle} : s.IsIsolated ↔ s.own.box.isIsolated = true := by
  have htable (d : Display) : d.isTable = true ↔ d = .table ∨ d = .inlineTable := by
    cases d <;> simp [Display.isTable]
  have hout (p : Position) : p.isOutOfFlow = true ↔ p = .absolute ∨ p = .fixed := by
    cases p <;> simp [Position.isOutOfFlow]
  simp [IsIsolated, BoxKeywords.isIsolated, display, position, isFloating, htable, hout, or_assoc]

end ComputedStyle

/-- A line is in effect at the first style of a chain, of which each inherits from the next: it is a
line of a style of the chain that no isolated style comes before. -/
def InEffect (chain : List ComputedStyle) (line : DecorationLine) : Prop :=
  ∃ inside s outside, chain = inside ++ s :: outside ∧ (∀ x ∈ inside, ¬x.IsIsolated) ∧
    s.lines.has line = true

section Chains

variable {s : ComputedStyle} {chain : List ComputedStyle} {line : DecorationLine}

theorem not_inEffect_nil : ¬InEffect [] line := by
  simp [InEffect]

theorem inEffect_cons :
    InEffect (s :: chain) line ↔ s.lines.has line = true ∨ ¬s.IsIsolated ∧ InEffect chain line :=
  exists_split_cons_iff

/-- Chains grow with the styles that take lines from above. -/
theorem OwnStyle.LinesFrom.inEffect_iff {above : DecorationLines} (h : s.own.LinesFrom above)
    (habove : ∀ line, above.has line = true ↔ InEffect chain line) (line : DecorationLine) :
    s.linesInEffect.has line = true ↔ InEffect (s :: chain) line := by
  rw [inEffect_cons, ← habove, ComputedStyle.isIsolated_iff, ComputedStyle.linesInEffect, h]
  split
  · next hisolated => simp [hisolated, ComputedStyle.lines]
  · next hisolated => simp [hisolated, ComputedStyle.lines, or_comm]

end Chains

/-! ## One visit -/

namespace Styler

open PassM

variable {t : StyledTree ε} {p p' : PassState} {e : ε} {parent : Option ComputedStyle}
  {history : SiblingHistory}

theorem passesLines_attachPseudos {c : StyleContext} {collected : Collected}
    {ps : List PseudoElement} {above : DecorationLines} {style out : ComputedStyle}
    (h : style.PassesLines above)
    (hrun : (attachPseudos c collected ps style).run p = .ok (out, p')) :
    out.PassesLines above := by
  induction ps generalizing style p with
  | nil =>
    obtain ⟨rfl, -⟩ := Prod.mk.inj (Except.ok.inj hrun)
    exact h
  | cons q ps ih =>
    rw [attachPseudos] at hrun
    obtain ⟨pseudo, p₁, hfresh, hrun⟩ := exists_of_run_bind hrun
    obtain ⟨happly, -⟩ := run_applyFresh_eq_ok_iff.mp hfresh
    have hpseudo : pseudo.own.LinesFrom style.linesInEffect := StyleContext.linesFrom_apply happly
    split at hrun
    · obtain ⟨attached, p₂, hattach, hrun⟩ := exists_of_run_bind hrun
      exact ih (h.attach hpseudo (run_lift_eq_ok_iff.mp hattach).1) hrun
    · exact ih h hrun

/-- What an element comes to takes the lines in effect from the style of its parent, or from the
initial style. -/
theorem passesLines_styleElement (hbare : p.styler.initial.pseudos = []) {style : ComputedStyle}
    {history' : SiblingHistory}
    (hrun : (styleElement t parent history e).run p = .ok (some (style, history'), p')) :
    style.PassesLines (parent.getD p.styler.initial).linesInEffect := by
  obtain ⟨s, r⟩ := p
  rw [run_styleElement] at hrun
  have hinitial : (s.collect t e).2.initial = s.initial := rfl
  generalize s.collect t e = found at hrun hinitial
  obtain ⟨collected, s'⟩ := found
  obtain ⟨full, p₁, hcompute, hfinish⟩ := exists_of_run_bind hrun
  obtain ⟨bare, p₂, hfresh, hattach⟩ := exists_of_run_bind hcompute
  obtain ⟨happly, -⟩ := run_applyFresh_eq_ok_iff.mp hfresh
  have hfull : full.PassesLines (parent.getD s.initial).linesInEffect := by
    refine passesLines_attachPseudos ⟨?_, fun entry hentry => ?_⟩ hattach
    · rw [← hinitial]
      exact StyleContext.linesFrom_apply happly
    · rw [StyleContext.pseudos_apply happly] at hentry
      change entry ∈ s'.initial.pseudos at hentry
      rw [hinitial, hbare] at hentry
      cases hentry
  have hconnected := (out_of_finishElement hfinish).1.symm
  obtain ⟨stored, _, _, _, hstored, hcompacted⟩ := exists_finishElement hconnected parent history
    collected.matched s'.settings.sharing full p₁.styler p₁.report
  obtain ⟨hout, -⟩ := Prod.mk.inj (Except.ok.inj (hfinish.symm.trans hstored))
  obtain ⟨rfl, -⟩ := Prod.mk.inj (Option.some.inj hout)
  exact hfull.of_plainForm hcompacted.plain

end Styler

/-! ## Passes -/

/-- A pass over a document comes to an end, and lines pass from the style that it stores for a
parent to those that it stores for its children. -/
theorem Styler.exists_restyle_passesLines {t : StyledTree ε} {root : ε} (ht : t.Rooted root)
    (hkeys : t.KeysDistinct) {s : Styler} (hbare : s.initial.pseudos = [])
    (hindex : s.index.Fitting) (hfits : t.Fitting root) :
    ∃ s' r, s.restyle t root = .ok (s', r) ∧ ∀ e ∈ (t.branch root).elements,
      ∃ style, s'.styles[t.key e]? = some style ∧ style.PassesLines
        (((t.parent? e).bind fun p => s'.styles[t.key p]?).getD s.initial).linesInEffect := by
  have hmet : t.met (t.branch root) = (t.branch root).elements :=
    t.met_eq_elements _ fun _ he => ht.connected he
  have htop : t.parent? root = none := by
    rw [ElementTree.parent?, ht.ancestors_root, List.head?_nil]
  have hparent : s.parentStyle t root = .ok none := by rw [parentStyle, htop]
  obtain ⟨s', r, vs, hrun, hvs, hwalk⟩ := exists_restyle_walk ht.lawful hkeys hindex hfits
    (ht.connected ht.mem_root) hparent
  have hdistinct := ht.nodup_keys_met hkeys root
  rw [← hvs, List.map_map] at hdistinct
  have hstored := hwalk.stored hdistinct
  rw [hmet] at hvs
  refine ⟨s', r, hrun, fun e he => ?_⟩
  rw [← hvs] at he
  obtain ⟨v, hv, rfl⟩ := List.mem_map.mp he
  obtain ⟨before, after, rfl, hready, hstyle⟩ := hwalk.exists_before hv
  have hout : v.out.isSome = true := by
    rw [(out_of_styleElement hstyle).1]
    exact ht.connected (hvs ▸ he)
  obtain ⟨⟨style, history⟩, hout⟩ := Option.isSome_iff_exists.mp hout
  have hendures : Enduring (fun _ => True) (·.initial = s.initial) :=
    { collect := fun _ _ hs => hs
      store := fun _ _ _ _ _ _ hs => hs
      move := fun _ hs => hs }
  have hinitial : v.state.styler.initial = s.initial := (hendures.of_walk hwalk rfl).2 v hv
  have hpasses : style.PassesLines (v.parent.getD s.initial).linesInEffect := by
    rw [Station.style, hout] at hstyle
    rw [← hinitial] at hbare ⊢
    exact passesLines_styleElement hbare hstyle
  refine ⟨style, by rw [hstored v hv, hout]; rfl, ?_⟩
  suffices hinherited : (t.parent? v.element).bind (fun p => s'.styles[t.key p]?) = v.parent by
    rw [hinherited]
    exact hpasses
  -- What is inherited is the style that the visit of the parent stored before.
  rcases hready.below with hfirst | ⟨u, hu, hup, above, history, hout, habove⟩
  · obtain rfl : before = [] := by simpa using hfirst
    rw [ht.elements_branch] at hvs
    have hroot : v.element = root := (List.cons.inj hvs).1
    have hnone := hready.parent
    rw [parentStyle, hroot, htop] at hnone
    rw [hroot, htop]
    exact Except.ok.inj hnone
  · have humem : u ∈ before := by simpa using hu
    rw [hup, Option.bind_some, hstored u (List.mem_append_left _ humem), hout, habove]
    rfl

/-- Where lines pass from the styles of parents to those of children, they come down the chains of
styles that start at the top. -/
theorem StyledTree.Rooted.exists_chain {t : StyledTree ε} {root : ε} (ht : t.Rooted root)
    {styles : Std.HashMap ElementKey ComputedStyle} {initial : ComputedStyle}
    (hinitial : initial.linesInEffect = .none)
    (h : ∀ e ∈ (t.branch root).elements, ∃ style, styles[t.key e]? = some style ∧
      style.PassesLines
        (((t.parent? e).bind fun p => styles[t.key p]?).getD initial).linesInEffect)
    {e : ε} (he : e ∈ (t.branch root).elements) :
    ∃ style above, styles[t.key e]? = some style ∧
      (t.ancestors e).map (fun a => styles[t.key a]?) = above.map some ∧
      (∀ line, style.linesInEffect.has line = true ↔ InEffect (style :: above) line) ∧
      ∀ entry ∈ style.pseudos, ∀ line,
        entry.2.linesInEffect.has line = true ↔ InEffect (entry.2 :: style :: above) line := by
  -- By induction on the way up, since the lines come down it.
  generalize hup : t.ancestors e = up
  induction up generalizing e with
  | nil =>
    obtain ⟨style, hstored, hpasses⟩ := h e he
    rw [ElementTree.parent?, hup, List.head?_nil, Option.bind_none, Option.getD_none, hinitial]
      at hpasses
    have hown : ∀ line, style.linesInEffect.has line = true ↔ InEffect [style] line :=
      hpasses.own.inEffect_iff fun line => by simp [DecorationLines.none, not_inEffect_nil]
    exact ⟨style, [], hstored, rfl, hown,
      fun entry hentry => (hpasses.pseudo entry hentry).inEffect_iff hown⟩
  | cons p up ih =>
    have hne : e ≠ root := by
      rintro rfl
      rw [ht.ancestors_root] at hup
      cases hup
    obtain ⟨q, hq, c, hc, rfl⟩ := ht.exists_child he hne
    have hchild := (ht.branch_child hc).2
    obtain ⟨rfl, htail⟩ := List.cons.inj (hchild.symm.trans hup)
    obtain ⟨parent, above, hparent, habove, hown, -⟩ := ih hq htail
    obtain ⟨style, hstored, hpasses⟩ := h c.element he
    rw [ElementTree.parent?, hchild, List.head?_cons, Option.bind_some, hparent, Option.getD_some]
      at hpasses
    have hown := hpasses.own.inEffect_iff hown
    refine ⟨style, parent :: above, hstored, ?_, hown,
      fun entry hentry => (hpasses.pseudo entry hentry).inEffect_iff hown⟩
    rw [List.map_cons, List.map_cons, habove, hparent]

/-- After a pass over a document, the lines in effect at an element are the lines of the styles from
the element up to the first that is isolated. At a pseudo-element they are found in the same way,
with the element that it belongs to as the next. -/
theorem Styler.Reachable.lines_inEffect {settings : Settings} {metrics : FontMetrics}
    {set : SheetSet} {m : Medium} {s : Styler} (hs : Reachable settings metrics set m s)
    (hset : set.Fitting m) {t : StyledTree ε} {root : ε} (ht : t.Rooted root)
    (hkeys : t.KeysDistinct) (hfits : t.Fitting root) :
    ∃ s' r, s.restyle t root = .ok (s', r) ∧ ∀ e ∈ (t.branch root).elements,
      ∃ style above, s'.styles[t.key e]? = some style ∧
        (t.ancestors e).map (fun a => s'.styles[t.key a]?) = above.map some ∧
        (∀ line, style.linesInEffect.has line = true ↔ InEffect (style :: above) line) ∧
        ∀ entry ∈ style.pseudos, ∀ line,
          entry.2.linesInEffect.has line = true ↔ InEffect (entry.2 :: style :: above) line := by
  have hinitial := hs.resting.initial
  have hindex : s.index.Fitting := hs.resting.index ▸ RuleIndex.fitting_build hset
  obtain ⟨s', r, hrun, hpasses⟩ :=
    exists_restyle_passesLines ht hkeys (hinitial ▸ rfl) hindex hfits
  exact ⟨s', r, hrun, fun e he => ht.exists_chain (hinitial ▸ rfl) hpasses he⟩

namespace Relative

/-- Sheets for the family: the parent is underlined, the elder child floats, the children have a
line above them, and markers have one through them. -/
def decoratedSheets : SheetSet where
  mode := .standards
  sheets :=
    [⟨.author,
      [⟨[⟨[.tag "ul"], []⟩],
          [⟨.known .textDecoration, .textDecoration (.ofLines [.underline]), false⟩]⟩,
        ⟨[⟨[.tag "li"], []⟩],
          [⟨.known .textDecoration, .textDecoration (.ofLines [.overline]), false⟩]⟩,
        ⟨[⟨[.pseudoClass .firstChild], [(.child, [.tag "ul"])]⟩],
          [⟨.known .float, .floating .left, false⟩]⟩,
        ⟨[⟨[.pseudoElement .marker], []⟩],
          [⟨.known .textDecoration, .textDecoration (.ofLines [.lineThrough]), false⟩]⟩], none⟩]

theorem fitting_decoratedSheets : decoratedSheets.Fitting .screen := by
  intro entry hentry d hd
  have hmem : d ∈ (RuleIndex.activeRules decoratedSheets .screen).flatMap (·.2.declarations) :=
    List.mem_flatMap.mpr ⟨entry, hentry, hd⟩
  fin_cases hmem <;> exact Declaration.fits_of_root rfl

end Relative

/-- The parent, which is underlined, and its children, one of which is isolated. -/
theorem Styler.Reachable.lines_inEffect_family :
    let t := Relative.tree fun _ => .none
    let s := Styler.create .default .approximate Relative.decoratedSheets .screen
    ∃ s' r, s.restyle t .parent = .ok (s', r) ∧ ∀ e ∈ (t.branch .parent).elements,
      ∃ style above, s'.styles[t.key e]? = some style ∧
        (t.ancestors e).map (fun a => s'.styles[t.key a]?) = above.map some ∧
        (∀ line, style.linesInEffect.has line = true ↔ InEffect (style :: above) line) ∧
        ∀ entry ∈ style.pseudos, ∀ line,
          entry.2.linesInEffect.has line = true ↔ InEffect (entry.2 :: style :: above) line :=
  (Reachable.create _ _ _).lines_inEffect Relative.fitting_decoratedSheets (Relative.rooted_tree _)
    (Relative.keysDistinct_tree _) (Relative.fitting_tree _)

end StyleEngine
