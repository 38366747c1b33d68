import StyleEngine.Proofs.Pass.Restyle
import StyleEngine.Proofs.Pass.Twins

/-!
# Sharing does not show

Siblings with equal signatures have the same declarations on the same ground, so their styles are
equal, and one gives all its groups to the other. That they are shared shows in identities only, and
in the number of elements that a pass counts as sharing.

## Main definitions

* `ComputedStyle.Unsigned`: a style without negative zeros.

## Main statements

* `PassInput.Descended.plainForm_eq`: siblings with equal signatures get styles of one plain form.
* `Styler.Reachable.sharing_sound`: sharing is sound, and whether and how far back alike siblings
  are looked for does not show.
-/

namespace StyleEngine

variable {ε : Type}

/-- Every zero in the style is the positive one: it is its own plain form, but for identities. -/
def ComputedStyle.Unsigned (s : ComputedStyle) : Prop :=
  s.plainForm = s.restamp 0

/-! ## Siblings -/

namespace PassInput

variable {i : PassInput ε} {x y e : ε} {start : NaivePass.Ground} {s : Styler} {r : Report}

/-- Elements with equal signatures, and with the same ancestors, are alike. -/
theorem alikeAt_of_signature (hfair : i.metrics.Fair)
    (hsignature : (i.index.signature i.tree x == i.index.signature i.tree y) = true)
    (hancestors : i.tree.ancestors x = i.tree.ancestors y) : i.naive.AlikeAt i.naive x y where
  settings := .of_eq rfl
  metrics := rfl
  fair := hfair
  isRoot := congrArg List.isEmpty hancestors
  declarations target := by
    have hentries := i.index.map_plainForm_gather hsignature target
    have hdeclarations := congrArg (List.map Entry.declaration) hentries
    rw [List.map_map, List.map_map] at hdeclarations
    rw [NaivePass.declarations, NaivePass.declarations, List.map_map, List.map_map]
    exact hdeclarations

namespace Descended

variable (h : i.Descended e start s r) (hfair : i.metrics.Fair)

include h hfair

/-- Siblings with equal signatures get styles of one plain form. -/
theorem plainForm_eq (hx : x ∈ i.tree.met (i.tree.branch e))
    (hy : y ∈ i.tree.met (i.tree.branch e))
    (hsignature : (i.index.signature i.tree x == i.index.signature i.tree y) = true)
    (hancestors : i.tree.ancestors x = i.tree.ancestors y) {style style' : ComputedStyle}
    (hstyle : s.styles[i.tree.key x]? = some style)
    (hstyle' : s.styles[i.tree.key y]? = some style') : style.plainForm = style'.plainForm := by
  obtain ⟨ground, hground, hplain⟩ := h.styled x hx
  obtain ⟨ground', hground', hplain'⟩ := h.styled y hy
  have hsame := (alikeAt_of_signature hfair hsignature hancestors).plainForm_groundAt hancestors
    start e
  rw [hground, hground'] at hsame
  have hgrounds := (hplain style hstyle).trans
    ((Except.ok.inj hsame).trans (hplain' style' hstyle').symm)
  exact Option.some.inj (NaivePass.Ground.plainForm_eq_iff.mp hgrounds).1

/-- An element that took over groups of a sibling took over all of them. -/
theorem sharedGroupCount_eq (ht : i.tree.Lawful) (hnumeric : s.Numeric)
    (hx : x ∈ i.tree.met (i.tree.branch e)) (hy : y ∈ i.tree.met (i.tree.branch e))
    (hshares : i.SharesWith s x y) :
    ∃ own style, s.styles[i.tree.key y]? = some style ∧
      s.styles[i.tree.key x]? = some (ComputedStyle.compactWith own style) ∧
      (own.compactWith style).sharedGroupCount style = 8 := by
  obtain ⟨hbefore, hsignature, own, style, hown, hstyle⟩ := hshares
  have hplain := h.plainForm_eq hfair hy hx hsignature (ht.ancestors_of_mem_preceding hbefore)
    hstyle hown
  have hcompact := own.plainForm_compactWith style
  have howned : own.Numeric := (hnumeric _ _ hown).of_plainForm_eq hcompact
  exact ⟨own, style, hstyle, hown,
    howned.sharedGroupCount_compactWith (hcompact.symm.trans hplain.symm)⟩

end Descended

end PassInput

namespace Styler

variable {settings settings' : Settings} {metrics : FontMetrics} {set : SheetSet} {m : Medium}
  {s s₂ : Styler}

/-- What two stylers have stored after the same calls is equal, and the same but for identities if
no negative zero is stored. -/
theorem Twins.rel_styles (h : s.Twins s₂) (hnumeric : s.Numeric) (key : ElementKey) :
    Option.Rel (fun style style₂ => style.plainForm = style₂.plainForm ∧ (style == style₂) = true ∧
      (style.Unsigned → style₂.Unsigned → style.restamp 0 = style₂.restamp 0))
      s.styles[key]? s₂.styles[key]? := by
  rcases eq_none_or_of_map_eq (h.styles key) with
    ⟨hkey, hkey₂⟩ | ⟨style, style₂, hkey, hkey₂, hplain⟩
  · rw [hkey, hkey₂]
    exact .none
  · rw [hkey, hkey₂]
    refine .some ⟨hplain, (hnumeric key style hkey).beq_of_plainForm_eq hplain, fun hs hs₂ => ?_⟩
    exact hs.symm.trans (hplain.trans hs₂)

/-- Sharing is sound, in every pass after which no stored style has a number that is none. Children
of one parent with equal signatures have equal styles, an element that is counted as sharing shares
all groups with a sibling before it, and a styler with other settings for sharing, after the same
calls, stores the same and reports the same but for that count. -/
theorem Reachable.sharing_sound (hs : Reachable settings metrics set m s) (hfair : metrics.Fair)
    {t : StyledTree ε} {e : ε} (ht : t.Lawful) (hkeys : t.KeysDistinct) {s' : Styler} {r : Report}
    (hrun : s.restyle t e = .ok (s', r)) (hnumeric : s'.Numeric) :
    (∀ p x y, t.parent? x = some p → t.parent? y = some p →
      x ∈ t.met (t.branch e) → y ∈ t.met (t.branch e) →
      t.isConnected x = true → t.isConnected y = true →
      (s.index.signature t x == s.index.signature t y) = true →
      ∃ style style', s'.styles[t.key x]? = some style ∧ s'.styles[t.key y]? = some style' ∧
        style.plainForm = style'.plainForm ∧ (style == style') = true) ∧
    (∃ counted : List ε, counted.Sublist (t.met (t.branch e)) ∧ r.shared = counted.length ∧
      ∀ x ∈ counted, ∃ y ∈ t.preceding x,
        (s.index.signature t y == s.index.signature t x) = true ∧
        ∃ own style, s'.styles[t.key y]? = some style ∧
          s'.styles[t.key x]? = some (ComputedStyle.compactWith own style) ∧
          (own.compactWith style).sharedGroupCount style = 8) ∧
    ∀ settings' s₂, settings.SameFonts settings' →
      Alongside settings settings' metrics set m s s₂ →
      ∃ s₂' r₂, s₂.restyle t e = .ok (s₂', r₂) ∧ r.withoutSharing = r₂.withoutSharing ∧
        (∀ key : ElementKey, s'.differences[key]? = s₂'.differences[key]?) ∧
        ∀ key : ElementKey, Option.Rel (fun style style₂ =>
          style.plainForm = style₂.plainForm ∧ (style == style₂) = true ∧
            (style.Unsigned → style₂.Unsigned → style.restamp 0 = style₂.restamp 0))
          s'.styles[key]? s₂'.styles[key]? := by
  let i : PassInput ε := ⟨settings, metrics, .build set m, s.digest, t⟩
  obtain ⟨parent, -, hleft⟩ := PassInput.exists_descended (i := i) ht hkeys hfair hs.resting hrun
  rw [hs.resting.index]
  refine ⟨fun p x y hpx hpy hx hy hcx hcy hsignature => ?_, ?_,
    fun settings' s₂ hfonts halong => ?_⟩
  · have hrecorded := recorded_restyle (ht.nodup_keys_met hkeys e) hrun
    obtain ⟨style, hstyle⟩ := Option.isSome_iff_exists.mp (hrecorded.committed x hx hcx).1
    obtain ⟨style', hstyle'⟩ := Option.isSome_iff_exists.mp (hrecorded.committed y hy hcy).1
    have hancestors : t.ancestors x = t.ancestors y := by
      rw [ht.ancestors_of_parent? hpx, ht.ancestors_of_parent? hpy]
    have hplain := hleft.plainForm_eq hfair hx hy hsignature hancestors hstyle hstyle'
    exact ⟨style, style', hstyle, hstyle', hplain,
      (hnumeric _ style hstyle).beq_of_plainForm_eq hplain⟩
  · obtain ⟨counted, hsublist, hcount, hcounted⟩ := hleft.counted
    refine ⟨counted, hsublist, hcount, fun x hx => ?_⟩
    obtain ⟨y, hy, hshares⟩ := hcounted x hx
    exact ⟨y, hshares.preceding, hshares.signature,
      hleft.sharedGroupCount_eq hfair ht hnumeric (hsublist.subset hx) hy hshares⟩
  · obtain ⟨-, hs₂⟩ := halong.reachable
    have htwins := halong.twins hfonts hfair
    obtain ⟨s₂', r₂, hrun₂, -⟩ := htwins.exists_restyle hs hs₂ hfonts hfair ht hkeys hrun
    obtain ⟨htwins', hreport⟩ :=
      htwins.restyle hs hs₂ hfonts hfair ht hkeys hrun hrun₂ halong.numeric hnumeric
    exact ⟨s₂', r₂, hrun₂, hreport, htwins'.differences, htwins'.rel_styles hnumeric⟩

end Styler

/-- In a family the two children are alike. -/
theorem Styler.Reachable.sharing_sound_family :
    let t := Relative.tree fun _ => .none
    let s := Styler.create .default .approximate Relative.sheets .screen
    let s₂ := Styler.create { Settings.default with sharing := false } .approximate Relative.sheets
      .screen
    ∃ s' r, s.restyle t .parent = .ok (s', r) ∧
      (∃ style style', s'.styles[t.key .elder]? = some style ∧
        s'.styles[t.key .younger]? = some style' ∧ (style == style') = true) ∧
      (∃ counted : List Relative, r.shared = counted.length ∧ ∀ x ∈ counted, ∃ own style,
        s'.styles[t.key x]? = some (ComputedStyle.compactWith own style) ∧
          (own.compactWith style).sharedGroupCount style = 8) ∧
      ∃ s₂' r₂, s₂.restyle t .parent = .ok (s₂', r₂) ∧ r.withoutSharing = r₂.withoutSharing ∧
        ∀ key : ElementKey, s'.differences[key]? = s₂'.differences[key]? := by
  intro t s s₂
  have hs : Styler.Reachable .default .approximate Relative.sheets .screen s := .create _ _ _
  have hall (x : Relative) : x ∈ (t.branch .parent).elements := by
    cases x <;> simp [t, Relative.tree, Relative.branch, Branch.elements, Branch.elementsOfAll]
  obtain ⟨s', r, hrun, hsettled⟩ := PassInput.exists_restyle_root
    (i := ⟨.default, .approximate, .build Relative.sheets .screen, s.digest, t⟩)
    (Relative.rooted_tree _) FontMetrics.fair_approximate
    (fun x hx => PassInput.fits_naive_build Relative.fitting_sheets (Relative.fitting_tree _) hx)
    hs.resting
  -- The numbers are those of the naive styles, which can be computed.
  have hnaive (x : Relative) : ((Relative.sheets.naivePass .screen .default .approximate t).style
      x).map (fun style => decide style.Numeric) = .ok true := by
    cases x <;> decide +kernel
  have hnumeric : s'.Numeric := by
    intro key style hstyle
    by_cases hkey : ∃ x, t.key x = key
    · obtain ⟨x, rfl⟩ := hkey
      obtain ⟨stored, style', hstored, hstyle', hplain⟩ :=
        (hsettled x (hall x)).exists_style Relative.countable_sheets
      obtain rfl := Option.some.inj (hstyle.symm.trans hstored)
      have hx := hnaive x
      rw [hstyle'] at hx
      exact (of_decide_eq_true (Except.ok.inj hx)).of_plainForm_eq hplain.symm
    · rw [Styler.styles_restyle (fun x _ heq => hkey ⟨x, heq⟩) hrun] at hstyle
      simp [s, Styler.create] at hstyle
  obtain ⟨hsiblings, ⟨counted, -, hcount, hcounted⟩, hsettings⟩ := hs.sharing_sound
    FontMetrics.fair_approximate (Relative.lawful_tree _) (Relative.keysDistinct_tree _) hrun
    hnumeric
  have hmet (x : Relative) : x ∈ t.met (t.branch .parent) := by
    rw [StyledTree.met_eq_elements _ fun _ _ => rfl]
    exact hall x
  have hsignature : (s.index.signature t .elder == s.index.signature t .younger) = true := by
    have hmatched (x : Relative) := (RuleIndex.gather_build Relative.countable_sheets t x).1
    have hindex : s.index = .build Relative.sheets .screen := rfl
    rw [hindex, RuleIndex.signature, RuleIndex.signature, hmatched, hmatched]
    decide +kernel
  obtain ⟨style, style', hstyle, hstyle', -, heq⟩ := hsiblings .parent .elder .younger rfl rfl
    (hmet _) (hmet _) rfl rfl hsignature
  obtain ⟨s₂', r₂, hrun₂, hreport, hdifferences, -⟩ :=
    hsettings { Settings.default with sharing := false } s₂ ⟨rfl, rfl⟩ (.create _ _ _ _)
  refine ⟨s', r, hrun, ⟨style, style', hstyle, hstyle', heq⟩, ⟨counted, hcount, fun x hx => ?_⟩,
    s₂', r₂, hrun₂, hreport, hdifferences⟩
  obtain ⟨y, -, -, own, similar, -, hown, hgroups⟩ := hcounted x hx
  exact ⟨own, similar, hown, hgroups⟩

end StyleEngine
