import StyleEngine.Proofs.Computation.Length
import StyleEngine.Proofs.Pass.Restyle

/-!
# The font size of the root

Lengths in units of the root's font size are converted at the font size that the pass computes for
the root, in the styles of all elements and of their pseudo-elements, with one exception: in the
pseudo-elements of the root itself they are converted at the default font size of the settings.

## Main definitions

* `RuleIndex.declared`: the declarations for an element or a pseudo-element.

## Main statements

* `Styler.Reachable.restyle_converts`: what lengths are converted at in a pass over the root.
* `Styler.restyle_root_marker`: a length in the marker of the root that is converted at another
  size.
-/

namespace StyleEngine

variable {ε : Type}

/-- The declarations for an element or a pseudo-element of it, in cascade order. -/
def RuleIndex.declared (index : RuleIndex) (t : StyledTree ε) (e : ε)
    (target : Option PseudoElement) : List Declaration :=
  (((index.collect (id : Feature → Feature) none t e).run .none).1.entriesOf target).map
    Entry.declaration

theorem PassInput.declared_eq (i : PassInput ε) (e : ε) (target : Option PseudoElement) :
    i.index.declared i.tree e target = i.naive.declarations e target := by
  rw [RuleIndex.declared, RuleIndex.run_collect_none]
  rfl

namespace NaivePass

variable {n : NaivePass ε} {e : ε}

/-- Attaching pseudo-elements keeps the style of the element. Each of them is computed below that
style, but not as the root. -/
theorem attachPseudos_eq_ok {c : StyleContext} {ps : List PseudoElement}
    {style out : ComputedStyle} (h : n.attachPseudos c e ps style = .ok out) :
    out.own = style.own ∧ ∀ entry ∈ out.pseudos, entry ∈ style.pseudos ∨
      ∃ below : ComputedStyle, below.own = style.own ∧
        { c with parent := some below, pseudo := some entry.1, isRoot := false }.apply 0
          (n.declarations e (some entry.1)) = .ok entry.2 := by
  induction ps generalizing style with
  | nil =>
    obtain rfl := Except.ok.inj h
    exact ⟨rfl, fun entry hentry => .inl hentry⟩
  | cons q ps ih =>
    rw [attachPseudos] at h
    obtain ⟨pseudo, happly, h⟩ := exists_of_bind_eq_ok h
    split at h
    · obtain ⟨attached, hattach, h⟩ := exists_of_bind_eq_ok h
      have htype : pseudo.styleType = some q := StyleContext.styleType_apply rfl happly
      rw [ComputedStyle.attach, htype] at hattach
      obtain rfl := Except.ok.inj hattach
      obtain ⟨hown, hpseudos⟩ := ih h
      refine ⟨hown, fun entry hentry => (hpseudos entry hentry).elim (fun hmem => ?_) .inr⟩
      rcases ComputedStyle.mem_putPseudo hmem with rfl | hmem
      · exact .inr ⟨style, rfl, happly⟩
      · exact .inl hmem
    · exact ih h

/-- What lengths are converted at in the style of an element and of its pseudo-elements. -/
theorem converts_styleUnder (hfits : n.Fits e) {parent : Option ComputedStyle}
    {rootFontSize : Float32} {style : ComputedStyle}
    (h : n.styleUnder e parent rootFontSize = .ok style) :
    (∀ p, style.Converts (parent.getD (.initial 0 n.settings.defaultFontSize)) n.settings
      n.metrics (if n.tree.isRoot e && !p.isFont then style.fontSize else rootFontSize)
      (n.declarations e none) p) ∧
    ∀ entry ∈ style.pseudos, ∀ p, entry.2.Converts style n.settings n.metrics rootFontSize
      (n.declarations e (some entry.1)) p := by
  rw [styleUnder] at h
  obtain ⟨bare, happly, h⟩ := exists_of_bind_eq_ok h
  obtain ⟨hown, hpseudos⟩ := attachPseudos_eq_ok h
  refine ⟨fun p => ?_, fun entry hentry p => ?_⟩
  · have hbare := StyleContext.converts_of_apply (hfits none) rfl happly p
    have hsize : bare.fontSize = style.fontSize := by
      rw [ComputedStyle.fontSize, ComputedStyle.font, ← hown]
      rfl
    rw [hsize] at hbare
    exact hbare.of_own hown rfl
  · have hnone : bare.pseudos = [] := StyleContext.pseudos_apply happly
    obtain hmem | ⟨below, hbelow, happly⟩ := hpseudos entry hentry
    · rw [hnone] at hmem
      cases hmem
    · have hpseudo := StyleContext.converts_of_apply (hfits (some entry.1)) rfl happly p
      exact hpseudo.of_own rfl (hown.trans hbelow.symm)

end NaivePass

namespace PassInput.Settled

variable {i : PassInput ε} {s : Styler} {e : ε}

/-- The root is converted at its own font size, and its pseudo-elements at the default one. -/
theorem converts_root (h : i.Settled s e) (hfair : i.metrics.Fair) (hfits : i.naive.Fits e)
    (htop : i.tree.ancestors e = []) :
    ∃ style, s.styles[i.tree.key e]? = some style ∧ plain s.rootFontSize = plain style.fontSize ∧
      (∀ p ≠ .fontSize, style.Converts (.initial 0 i.settings.defaultFontSize) i.settings i.metrics
        style.fontSize (i.index.declared i.tree e none) p) ∧
      ∀ entry ∈ style.pseudos, ∀ p, entry.2.Converts style i.settings i.metrics
        i.settings.defaultFontSize (i.index.declared i.tree e (some entry.1)) p := by
  obtain ⟨⟨style, hstored, style', rootFontSize, hnaive, hplain, hsize⟩, -⟩ := h
  have htop : i.naive.tree.ancestors e = [] := htop
  have hroot : i.naive.tree.isRoot e = true := by rw [ElementTree.isRoot, htop, List.isEmpty_nil]
  rw [htop, NaivePass.styleAlong] at hnaive
  obtain ⟨found, hunder, hnaive⟩ := exists_of_bind_eq_ok hnaive
  obtain ⟨rfl, rfl⟩ := Prod.mk.inj (Except.ok.inj hnaive)
  obtain ⟨hown, hpseudos⟩ := NaivePass.converts_styleUnder hfits hunder
  have hfontSize := ComputedStyle.fontSize_eq_of_plainForm hplain
  simp only [i.declared_eq]
  refine ⟨style, hstored, hsize.trans hfontSize.symm, fun p hp => ?_, fun entry hentry p => ?_⟩
  · refine ComputedStyle.Converts.congr ?_ hfair hplain.symm rfl hfontSize.symm
    have hconverts := hown p
    rw [hroot, Bool.true_and] at hconverts
    cases hfont : p.isFont with
    | true => exact hconverts.of_isFont hfont hp _
    | false =>
      rw [hfont] at hconverts
      exact hconverts
  · obtain ⟨entry', hentry', hpseudo, hplain'⟩ :=
      ComputedStyle.exists_mem_pseudos_of_plainForm hplain hentry
    exact (hpseudo ▸ hpseudos entry' hentry' p).congr hfair hplain' hplain.symm rfl

/-- Below the root, everything is converted at the font size of the root. -/
theorem converts_below {p : ε} (h : i.Settled s e) (hparent : i.Settled s p)
    (hfair : i.metrics.Fair) (hfits : i.naive.Fits e)
    (hp : i.tree.ancestors e = p :: i.tree.ancestors p) {rootFontSize : Float32}
    (hroot : plain s.rootFontSize = plain rootFontSize) :
    ∃ style parent, s.styles[i.tree.key e]? = some style ∧
      s.styles[i.tree.key p]? = some parent ∧
      (∀ p, style.Converts parent i.settings i.metrics rootFontSize
        (i.index.declared i.tree e none) p) ∧
      ∀ entry ∈ style.pseudos, ∀ p, entry.2.Converts style i.settings i.metrics rootFontSize
        (i.index.declared i.tree e (some entry.1)) p := by
  obtain ⟨⟨style, hstored, style', rootFontSize', hnaive, hplain, hsize⟩, -⟩ := h
  obtain ⟨⟨parent, hstored', hagrees⟩, -⟩ := hparent
  have hp : i.naive.tree.ancestors e = p :: i.naive.tree.ancestors p := hp
  have hnotroot : i.naive.tree.isRoot e = false := by
    rw [ElementTree.isRoot, hp, List.isEmpty_cons]
  rw [hp, NaivePass.styleAlong] at hnaive
  obtain ⟨⟨parent', size⟩, halong, hnaive⟩ := exists_of_bind_eq_ok hnaive
  obtain ⟨found, hunder, hnaive⟩ := exists_of_bind_eq_ok hnaive
  obtain ⟨rfl, rfl⟩ := Prod.mk.inj (Except.ok.inj hnaive)
  obtain ⟨hown, hpseudos⟩ := NaivePass.converts_styleUnder hfits hunder
  have hplainParent : parent.plainForm = parent'.plainForm :=
    hagrees.plainForm_eq ⟨parent', size, halong, rfl, hsize⟩
  have hsize := hsize.symm.trans hroot
  simp only [i.declared_eq]
  refine ⟨style, parent, hstored, hstored', fun p => ?_, fun entry hentry p => ?_⟩
  · have hconverts := hown p
    rw [hnotroot, Bool.false_and] at hconverts
    exact hconverts.congr hfair hplain.symm hplainParent.symm hsize
  · obtain ⟨entry', hentry', hpseudo, hplain'⟩ :=
      ComputedStyle.exists_mem_pseudos_of_plainForm hplain hentry
    exact (hpseudo ▸ hpseudos entry' hentry' p).congr hfair hplain' hplain.symm hsize

end PassInput.Settled

/-- A pass over the root of a document comes to an end, and converts lengths in units of the root's
font size at the font size that it stores for the root: in the styles of all elements, the font size
of the root itself set aside, and in those of their pseudo-elements. Pseudo-elements of the root are
converted at the default font size. -/
theorem Styler.Reachable.restyle_converts {settings : Settings} {metrics : FontMetrics}
    {set : SheetSet} {m : Medium} {s : Styler} (hs : Reachable settings metrics set m s)
    (hfair : metrics.Fair) (hset : set.Fitting m) {t : StyledTree ε} {root : ε} (ht : t.Rooted root)
    (hfits : t.Fitting root) :
    ∃ s' r top, s.restyle t root = .ok (s', r) ∧ s'.styles[t.key root]? = some top ∧
      ∀ e ∈ (t.branch root).elements,
        let inherited := ((t.parent? e).bind fun p => s'.styles[t.key p]?).getD
          (.initial 0 settings.defaultFontSize)
        let declared := (RuleIndex.build set m).declared t e
        ∃ style, s'.styles[t.key e]? = some style ∧
          (∀ p, (t.isRoot e = true → p ≠ .fontSize) →
            style.Converts inherited settings metrics top.fontSize (declared none) p) ∧
          ∀ entry ∈ style.pseudos, ∀ p, entry.2.Converts style settings metrics
            (if t.isRoot e then settings.defaultFontSize else top.fontSize)
            (declared (some entry.1)) p := by
  let i : PassInput ε := ⟨settings, metrics, .build set m, s.digest, t⟩
  have hfits {e : ε} (he : e ∈ (t.branch root).elements) : i.naive.Fits e :=
    PassInput.fits_naive_build hset hfits he
  obtain ⟨s', r, hrun, hsettled⟩ := PassInput.exists_restyle_root (i := i) ht hfair
    (fun _ he => hfits he) hs.resting
  have hroot : root ∈ (t.branch root).elements := ht.mem_elements_self root
  obtain ⟨top, hstored, hsize, htop, hpseudos⟩ :=
    (hsettled root hroot).converts_root hfair (hfits hroot) ht.ancestors_root
  refine ⟨s', r, top, hrun, hstored, ?_⟩
  intro e he inherited declared
  by_cases hne : e = root
  · subst hne
    have hisRoot : t.isRoot e = true := (ht.isRoot_iff he).mpr rfl
    have hinherited : inherited = .initial 0 settings.defaultFontSize := by
      unfold inherited
      rw [ElementTree.parent?, ht.ancestors_root]
      rfl
    rw [hinherited, if_pos hisRoot]
    exact ⟨top, hstored, fun p hp => htop p (hp hisRoot), hpseudos⟩
  · obtain ⟨p, hp, c, hc, rfl⟩ := ht.exists_child he hne
    obtain ⟨-, hup⟩ := ht.branch_child hc
    obtain ⟨style, parent, hstyle, hparent, hown, hpseudos⟩ :=
      (hsettled _ he).converts_below (hsettled p hp) hfair (hfits he) hup hsize
    have hisRoot : t.isRoot c.element = false := by rw [ElementTree.isRoot, hup, List.isEmpty_cons]
    have hparent : s'.styles[t.key p]? = some parent := hparent
    have hinherited : inherited = parent := by
      unfold inherited
      rw [ElementTree.parent?, hup, List.head?_cons, Option.bind_some, hparent, Option.getD_some]
    rw [hinherited, if_neg (by rw [hisRoot]; decide)]
    exact ⟨style, hstyle, fun p _ => hown p, hpseudos⟩

namespace Relative

/-- Sheets for the family: the parent has a font of 20 pixels, and every element has a marker as
wide as two of the root's font sizes. -/
def sizedSheets : SheetSet where
  mode := .standards
  sheets :=
    [⟨.author, [⟨[⟨[.tag "ul"], []⟩], [⟨.known .fontSize, .length ⟨20, .px⟩, false⟩]⟩,
      ⟨[⟨[.pseudoElement .marker], []⟩], [⟨.known .width, .length ⟨2, .rem⟩, false⟩]⟩], none⟩]

theorem countable_sizedSheets : sizedSheets.Countable .screen where
  rules_lt := by decide
  selectors_le entry hentry := by
    rcases List.mem_cons.mp hentry with rfl | hentry
    · decide
    · rw [List.mem_singleton.mp hentry]
      decide

theorem fitting_sizedSheets : sizedSheets.Fitting .screen := by
  intro entry hentry d hd
  rcases List.mem_cons.mp hentry with rfl | hentry
  · rw [List.mem_singleton.mp hd]
    exact Declaration.fits_of_root rfl
  · rw [List.mem_singleton.mp hentry] at hd
    rw [List.mem_singleton.mp hd]
    exact Declaration.fits_of_root rfl

end Relative

/-- A family whose parent has a font of its own. -/
theorem Styler.Reachable.restyle_converts_family :
    let t := Relative.tree fun _ => .none
    let s := Styler.create .default .approximate Relative.sizedSheets .screen
    ∃ s' r top, s.restyle t .parent = .ok (s', r) ∧ s'.styles[t.key .parent]? = some top ∧
      ∀ e ∈ (t.branch .parent).elements,
        let inherited := ((t.parent? e).bind fun p => s'.styles[t.key p]?).getD
          (.initial 0 Settings.default.defaultFontSize)
        let declared := (RuleIndex.build Relative.sizedSheets .screen).declared t e
        ∃ style, s'.styles[t.key e]? = some style ∧
          (∀ p, (t.isRoot e = true → p ≠ .fontSize) →
            style.Converts inherited .default .approximate top.fontSize (declared none) p) ∧
          ∀ entry ∈ style.pseudos, ∀ p, entry.2.Converts style .default .approximate
            (if t.isRoot e then Settings.default.defaultFontSize else top.fontSize)
            (declared (some entry.1)) p :=
  (Reachable.create _ _ _).restyle_converts FontMetrics.fair_approximate
    Relative.fitting_sizedSheets (Relative.rooted_tree _) (Relative.fitting_tree _)

/-- In the marker of the parent, which is the root, two root font sizes are 32 pixels, although the
parent has a font of 20. -/
theorem Styler.restyle_root_marker :
    let t := Relative.tree fun _ => .none
    let s := Styler.create .default .approximate Relative.sizedSheets .screen
    ∃ s' r top marker, s.restyle t .parent = .ok (s', r) ∧
      s'.styles[t.key .parent]? = some top ∧ (.marker, marker) ∈ top.pseudos ∧
      (20 == top.fontSize) = true ∧ (.fixed 32 == marker.own.sizing.value.width) = true ∧
      ¬marker.Converts top .default .approximate top.fontSize
        ((RuleIndex.build Relative.sizedSheets .screen).declared t .parent (some .marker))
        .width := by
  intro t s
  let i : PassInput Relative :=
    ⟨.default, .approximate, .build Relative.sizedSheets .screen, s.digest, t⟩
  have hnaive : i.naive = Relative.sizedSheets.naivePass .screen .default .approximate t :=
    PassInput.naive_build Relative.countable_sizedSheets
  obtain ⟨s', r, hrun, hsettled⟩ := PassInput.exists_restyle_root (i := i) (Relative.rooted_tree _)
    FontMetrics.fair_approximate
    (fun _ he =>
      PassInput.fits_naive_build Relative.fitting_sizedSheets (Relative.fitting_tree _) he)
    (Reachable.create _ _ _).resting
  obtain ⟨⟨top, hstored, hagrees⟩, -⟩ :=
    hsettled .parent ((Relative.rooted_tree _).mem_elements_self _)
  obtain ⟨top', htop', hplain⟩ := hagrees.exists_style
  have hseen : ((Relative.sizedSheets.naivePass .screen .default .approximate t).style
      .parent).map (fun s => (20 == s.fontSize,
        s.pseudos.map fun entry => (entry.1, Length.fixed 32 == entry.2.own.sizing.value.width))) =
      .ok (true, [(.marker, true)]) := by
    decide +kernel
  have hwinner : Declaration.winner? .width ((Relative.sizedSheets.naivePass .screen .default
      .approximate t).declarations .parent (some .marker)) =
      some ⟨.known .width, .length ⟨2, .rem⟩, false⟩ := by
    cbv
  -- What is seen of the naive style is seen of the stored one as well.
  rw [hnaive] at htop'
  rw [htop'] at hseen
  obtain ⟨hsize', hpseudos'⟩ := Prod.mk.inj (Except.ok.inj hseen)
  obtain ⟨entry', hentry', hmarker⟩ : ∃ entry' ∈ top'.pseudos,
      (entry'.1, Length.fixed 32 == entry'.2.own.sizing.value.width) = (.marker, true) :=
    List.mem_map.mp (hpseudos' ▸ List.mem_singleton_self _)
  obtain ⟨hpseudo, hwidth'⟩ := Prod.mk.inj hmarker
  obtain ⟨⟨q, marker⟩, hentry, hq, hform⟩ :=
    ComputedStyle.exists_mem_pseudos_of_plainForm hplain.symm hentry'
  obtain rfl : q = .marker := hq.trans hpseudo
  have hsize : plainZero 20 = plainZero top.fontSize :=
    (plainZero_eq_of_beq hsize').trans (ComputedStyle.fontSize_eq_of_plainForm hplain).symm
  have hwidth : plain (Length.fixed 32) = plain marker.own.sizing.value.width := by
    have hsame := congrArg (·.sizing.value.width) (ComputedStyle.own_eq_of_plainForm hform)
    exact (Plain.plain_eq_of_beq hwidth').trans hsame.symm
  refine ⟨s', r, top, marker, hrun, hstored, hentry, beq_of_plainZero_eq hsize (by decide +kernel),
    Plain.beq_of_plain_eq hwidth (by decide +kernel), fun hconverts => ?_⟩
  rw [i.declared_eq, hnaive] at hconverts
  have hcomes := hwidth.trans (hconverts.width_rem hwinner rfl)
  have hproduct : plainZero 32 = plainZero (2 * 20) :=
    (Length.fixed.inj hcomes).trans (plainZero_mul rfl hsize.symm)
  have hbeq : ((32 : Float32) == 2 * 20) = true :=
    beq_of_plainZero_eq hproduct (by decide +kernel)
  exact absurd hbeq (by decide +kernel)

end StyleEngine
