import StyleEngine.Proofs.Pass.Balance
import StyleEngine.Proofs.Pass.Recall
import StyleEngine.Proofs.Pass.Visit
import StyleEngine.Proofs.Tree.Siblings

/-!
# Which sibling shares its groups

The children of an element are looked at as through a window on the last of them that got a style.
What is below a child, and children that are cut off, do not move it.

## Main definitions

* `Station.Recalls`: what a pass remembers at a station.

## Main statements

* `StyledTree.Lawful.passRule_recalls`, `Styler.recalls_stations`: what a pass remembers at a
  station.
* `PassInput.exists_firstChild`: a child without siblings before it shares groups with its parent.
* `Styler.shares_within_window`: a history is a window on the last calls, and an element shares the
  groups of a sibling in it, or of its parent.
-/

namespace StyleEngine

variable {ε : Type}

/-! ## Passes -/

namespace StyledTree.Lawful

variable {t : StyledTree ε} (ht : t.Lawful) {e x : ε}

include ht

theorem elements_branch_eq (e : ε) :
    (t.branch e).elements = e :: Branch.elementsOfAll (t.branch e).children := by
  rw [ht.elements_branch, Branch.elementsOfAll_eq_flatMap]

theorem key_ne_of_subset_preceding (hkeys : t.KeysDistinct) {l : List ε}
    (hl : l ⊆ t.preceding e) : ∀ x ∈ l, t.key x ≠ t.key e := by
  intro x hx hkey
  exact ht.not_mem_preceding_self e (hkeys hkey ▸ hl hx)

/-- What is met below an element has other keys than the element and the siblings before it. -/
theorem key_not_mem_metOfAll (hkeys : t.KeysDistinct) (hx : x ∈ e :: t.preceding e) :
    t.key x ∉ (t.metOfAll (t.branch e).children).map t.key := by
  intro hmem
  obtain ⟨y, hy, hkey⟩ := List.mem_map.mp hmem
  obtain rfl := hkeys hkey
  have hbelow := (t.metOfAll_sublist _).subset hy
  rcases List.mem_cons.mp hx with rfl | hx
  · have hnodup := ht.nodup_elements y
    rw [ht.elements_branch_eq, List.nodup_cons] at hnodup
    exact hnodup.1 hbelow
  · refine ht.not_mem_elements_of_mem_preceding hx ?_
    rw [ht.elements_branch_eq]
    exact List.mem_cons_of_mem _ hbelow

theorem nodup_keys_metOfAll (hkeys : t.KeysDistinct) (e : ε) :
    ((t.metOfAll (t.branch e).children).map t.key).Nodup := by
  have hnodup := ht.nodup_elements e
  rw [ht.elements_branch_eq, List.nodup_cons] at hnodup
  exact (hnodup.2.sublist (t.metOfAll_sublist _)).map fun _ _ h => hkeys h

end StyledTree.Lawful

/-- What a pass over `e` remembers at a station: nothing at the top, and below it the siblings in
the window on those before the element. -/
def Station.Recalls (t : StyledTree ε) (c : Settings) (e : ε) (stops : List (Station ε))
    (a : Station ε) : Prop :=
  ∃ l, (a.element = e ∧ l = [] ∨ e ∈ t.ancestors a.element ∧ l = t.preceding a.element) ∧
    ∃ near ⊆ stops, a.state.styler.Recalls t c near l a.history

/-- Every sibling that gets a style is remembered by those after it, as far as the window goes. What
is below a sibling has a history of its own. -/
theorem StyledTree.Lawful.passRule_recalls {t : StyledTree ε} (ht : t.Lawful)
    (hkeys : t.KeysDistinct) (c : Settings) (e : ε) (stops : List (Station ε)) :
    PassRule t stops (·.Recalls t c e stops)
      (fun a _ before history p => e ∈ a.element :: t.ancestors a.element ∧
        ∃ near ⊆ stops, p.styler.Recalls t c near (before.map Branch.element).reverse history)
      (fun a history p => ∀ l ⊆ t.preceding a.element, ∀ near ⊆ stops,
        a.state.styler.Recalls t c near l a.history →
        ∃ near' ⊆ stops, p.styler.Recalls t c near' (a.element :: l) history) where
  cut {a p} _ _ hstyle l hl near hnear hrecalls :=
    ⟨near, hnear, hrecalls.cut (ht.key_ne_of_subset_preceding hkeys hl) hstyle⟩
  enter {a style history p} _ hat hstyle := by
    obtain ⟨l, hplace, near, -, hrecalls⟩ := hat
    have hsettings : p.styler.settings = c := (Styler.enduring_settings c).keeps_styleElement
      trivial _ _ _ _ _ _ _ hrecalls.settings hstyle
    refine ⟨?_, [], List.nil_subset _, ?_⟩
    · rcases hplace with ⟨rfl, -⟩ | ⟨he, -⟩
      · exact List.mem_cons_self
      · exact List.mem_cons_of_mem _ he
    · rw [hsettings]
      exact .nil hsettings
  child {a style before b after history p} hchildren hamong := by
    have hb : b ∈ (t.branch a.element).children := by simp [hchildren]
    obtain ⟨he, near, hnear, hrecalls⟩ := hamong
    refine ⟨t.preceding b.element, .inr ⟨(ht.branch_child hb).2 ▸ he, rfl⟩, near, hnear, ?_⟩
    rw [(ht.siblings_child hchildren).1]
    exact hrecalls.frame hrecalls.settings fun _ _ => rfl
  next {a style before b after history p history' p'} hchildren hamong _ _ hafter := by
    obtain ⟨he, near, hnear, hrecalls⟩ := hamong
    have hpreceding := (ht.siblings_child hchildren).1
    obtain ⟨near', hnear', hrecalls'⟩ := hafter _ (by rw [← hpreceding]; exact List.Subset.refl _)
      near hnear (hrecalls.frame hrecalls.settings fun _ _ => rfl)
    refine ⟨he, near', hnear', ?_⟩
    simpa [Station.ofChild] using hrecalls'
  leave {a style history p history' p'} ha _ hstyle hrun _ l hl near hnear hrecalls := by
    obtain ⟨near', hnear', hrecalls'⟩ :=
      hrecalls.cons (ht.key_ne_of_subset_preceding hkeys hl) hstyle
    have henter : (p.enter t a.element).styler.settings = c := hrecalls'.settings
    have hendures := Styler.enduring_settings c
    have hsettings : p'.styler.settings = c := hendures.unmoved.keeps_styleChildren t _
      (fun _ _ => hendures.keeps_styleElement trivial) style _ _ _ _ _ _ henter hrun
    have hrecorded := Styler.records_styleChildren t style _ _ (ht.nodup_keys_metOfAll hkeys _) _ _
      _ hrun
    refine ⟨near', List.Subset.trans hnear' (List.cons_subset.mpr ⟨ha, hnear⟩),
      hrecalls'.frame hsettings fun x hx => ?_⟩
    exact (hrecorded.kept (t.key x)
      (ht.key_not_mem_metOfAll hkeys (List.cons_subset_cons _ hl hx))).1

/-- What a pass remembers at a station, whether or not the pass comes to an end. -/
theorem Styler.recalls_stations {t : StyledTree ε} (ht : t.Lawful) (hkeys : t.KeysDistinct)
    (s : Styler) (parent : Option ComputedStyle) (e : ε) :
    ∀ a ∈ s.stations t parent e, a.Recalls t s.settings e (s.stations t parent e) :=
  (ht.passRule_recalls hkeys s.settings e _).stations ht
    ⟨[], .inl ⟨rfl, rfl⟩, [], List.nil_subset _, .nil rfl⟩

/-! ## A parent -/

/-- Without declarations for pseudo-elements, the style is all that is computed. -/
theorem Styler.run_computeStyle {c : StyleContext} {collected : Collected} {full : ComputedStyle}
    {p : PassState} (hpseudos : collected.pseudoElements = [])
    (happly : c.apply p.styler.stamp (collected.entries.map Entry.declaration) = .ok full) :
    (computeStyle c collected).run p =
      .ok (full, ⟨{ p.styler with stamp := p.styler.stamp + 1 }, p.report⟩) := by
  rw [computeStyle, PassM.run_bind_of_ok (run_applyFresh_eq_ok_iff.mpr ⟨happly, rfl⟩), hpseudos]
  rfl

namespace Station

variable {t : StyledTree ε} {a : Station ε} {full : ComputedStyle} {q : PassState}

/-- An element without pseudo-elements takes one stamp. -/
theorem own_of_apply {collected : Collected}
    (hcollected : (a.state.styler.collect t a.element).1 = collected)
    (hpseudos : collected.pseudoElements = [])
    (happly : (a.state.styler.contextOf (t.isRoot a.element) a.parent).apply a.state.styler.stamp
      (collected.entries.map Entry.declaration) = .ok full) :
    ∃ q, a.own t = .ok (full, q) ∧ q.styler.stamp = a.state.styler.stamp + 1 ∧
      q.styler.rootFontSize = a.state.styler.rootFontSize := by
  subst hcollected
  exact ⟨_, Styler.run_computeStyle (p := ⟨(a.state.styler.collect t a.element).2, a.state.report⟩)
    hpseudos happly, rfl, rfl⟩

/-- An element that nothing is remembered for shares groups with its parent. -/
theorem exists_style_of_empty {c : Settings} (hconnected : t.isConnected a.element = true)
    (hsettings : a.state.styler.settings = c) (hsharing : c.sharing = true)
    (hhistory : a.history = .empty c.scanLimit) (hfull : a.own t = .ok (full, q)) :
    ∃ history p, a.style t = .ok (some (a.parent.elim full full.compactWith, history), p) ∧
      p.styler.stamp = q.styler.stamp ∧
      p.styler.rootFontSize = if t.isRoot a.element then
        (a.parent.elim full full.compactWith).fontSize else q.styler.rootFontSize := by
  obtain ⟨style, history, differences, r, hrun, -⟩ :=
    Styler.exists_finishElement hconnected a.parent a.history
      (a.state.styler.collect t a.element).1.matched a.state.styler.settings.sharing full q.styler
      q.report
  have hstyle := (style_eq t a).trans ((bind_of_eq_ok hfull).trans hrun)
  have hrecalls : a.state.styler.Recalls t c [] [] a.history := by
    rw [hhistory]
    exact .nil hsettings
  obtain ⟨_, _, n, hfull', hcompacts, -, -⟩ := exists_of_style hrecalls hstyle
  obtain ⟨rfl, rfl⟩ := Prod.mk.inj (Except.ok.inj (hfull.symm.trans hfull'))
  rw [← hcompacts.eq_of_nil (by rw [hsettings, hsharing])]
  exact ⟨history, _, hstyle, rfl, rfl⟩

end Station

/-- The station after that of the top element is the one of its first child. -/
theorem Styler.ofChild_mem_stations {t : StyledTree ε} {s : Styler} {parent : Option ComputedStyle}
    {e c : ε} {cs cs' : List (Branch ε)} (hbranch : t.branch e = .node e (.node c cs :: cs'))
    {style : ComputedStyle} {history : SiblingHistory} {p : PassState}
    (hstyle : (s.firstStation t parent e).style t = .ok (some (style, history), p)) :
    .ofChild t style (.empty p.styler.settings.scanLimit) (p.enter t e) c ∈
      s.stations t parent e := by
  have hfirst : Station.style t ⟨e, parent, .empty s.settings.scanLimit,
    ⟨s.beginPass t e, .empty⟩⟩ = .ok (some (style, history), p) := hstyle
  rw [stations, hbranch, stationsOfBranch, hfirst]
  dsimp only
  rw [stationsOfChildren, stationsOfBranch]
  exact List.mem_cons_of_mem _ (List.mem_append_left _ List.mem_cons_self)

namespace PassInput

variable {i : PassInput ε} {s : Styler} {a : Station ε} {full : ComputedStyle}

theorem Underway.contextOf_eq (h : i.Underway s) (e : ε) (parent : Option ComputedStyle) :
    s.contextOf (i.tree.isRoot e) parent =
      i.naive.contextOf e parent (i.naive.rootFontSizeAt e s.rootFontSize) := by
  rw [Styler.contextOf, h.initial, h.settings, h.metrics]
  rfl

theorem Underway.of_style (ht : i.tree.Lawful) (hfair : i.metrics.Fair)
    (h : i.Underway a.state.styler) (hfilter : a.Filtered i.tree)
    {out : Option (ComputedStyle × SiblingHistory)} {p : PassState}
    (hstyle : a.style i.tree = .ok (out, p)) : i.Underway p.styler := by
  rcases h.visit ht hfair hfilter with ⟨error, herror, -⟩ | ⟨ground, out', after, hrun, -, hcomes⟩
  · cases hstyle.symm.trans herror
  · obtain ⟨-, rfl⟩ := Prod.mk.inj (Except.ok.inj (hstyle.symm.trans hrun))
    exact hcomes.underway

/-- The style of an element is computed from what the tree alone says. -/
theorem Underway.exists_own (ht : i.tree.Lawful) (h : i.Underway a.state.styler)
    (hfilter : a.Filtered i.tree) (hpseudos : i.naive.pseudoElements a.element = [])
    (happly : (i.naive.contextOf a.element a.parent
      (i.naive.rootFontSizeAt a.element a.state.styler.rootFontSize)).apply a.state.styler.stamp
      (i.naive.declarations a.element none) = .ok full) :
    ∃ q, a.own i.tree = .ok (full, q) ∧ q.styler.stamp = a.state.styler.stamp + 1 ∧
      q.styler.rootFontSize = a.state.styler.rootFontSize := by
  rw [← h.contextOf_eq] at happly
  exact Station.own_of_apply (h.collect ht hfilter).1 hpseudos happly

/-- In a pass that starts with no style above it, the first child of the top element shares groups
with it. -/
theorem exists_firstChild (ht : i.tree.Lawful) (hkeys : i.tree.KeysDistinct)
    (hfair : i.metrics.Fair) (hsharing : i.settings.sharing = true)
    (hconnected : ∀ x, i.tree.isConnected x = true)
    (hpseudos : ∀ x, i.naive.pseudoElements x = [])
    (hs : s.Resting i.settings i.metrics i.index i.digest) {e c : ε} {cs cs' : List (Branch ε)}
    (hbranch : i.tree.branch e = .node e (.node c cs :: cs')) {parent : ComputedStyle}
    (hparent : (i.naive.contextOf e none (i.naive.rootFontSizeAt e s.rootFontSize)).apply s.stamp
      (i.naive.declarations e none) = .ok parent)
    (hfull : (i.naive.contextOf c (some parent) (i.naive.rootFontSizeAt c
      (i.naive.below e s.rootFontSize parent).rootFontSize)).apply (s.stamp + 1)
      (i.naive.declarations c none) = .ok full) :
    ∃ a ∈ s.stations i.tree none e, a.element = c ∧ a.parent = some parent ∧
      ∃ q history p, a.own i.tree = .ok (full, q) ∧
        a.style i.tree = .ok (some (full.compactWith parent, history), p) := by
  -- The top element gets the style that is computed for it.
  have htop : i.Underway (s.firstStation i.tree none e).state.styler :=
    underway_beginPass hkeys hs e
  have hfilter : (s.firstStation i.tree none e).Filtered i.tree := s.filtered_beginPass i.tree e
  obtain ⟨q, hown, hstamp, hsize⟩ := htop.exists_own ht hfilter (hpseudos e) hparent
  obtain ⟨history, p, hstyle, hstamp', hsize'⟩ := Station.exists_style_of_empty (hconnected e)
    htop.settings hsharing (by rw [← hs.settings]; rfl) hown
  have hunderway := htop.of_style ht hfair hfilter hstyle
  -- The child comes next, with no sibling before it.
  let child := Station.ofChild i.tree parent (.empty p.styler.settings.scanLimit)
    (p.enter i.tree e) c
  have hmem : child ∈ s.stations i.tree none e := Styler.ofChild_mem_stations hbranch hstyle
  have hchild : i.Underway child.state.styler :=
    ⟨{ hunderway.toSetUp with }, hunderway.sound⟩
  have hstampChild : child.state.styler.stamp = s.stamp + 1 := hstamp'.trans hstamp
  have hsizeChild : child.state.styler.rootFontSize =
      (i.naive.below e s.rootFontSize parent).rootFontSize := by
    exact hsize'.trans (by rw [hsize]; rfl)
  obtain ⟨q', hown', -⟩ := hchild.exists_own ht
    (Styler.filtered_stations ht s none e child hmem) (hpseudos c)
    (by rw [hstampChild, hsizeChild]; exact hfull)
  obtain ⟨history', p', hstyle', -⟩ := Station.exists_style_of_empty (hconnected c)
    hchild.settings hsharing (by rw [← hunderway.settings]; rfl) hown'
  exact ⟨child, hmem, rfl, rfl, q', history', p', hown', hstyle'⟩

end PassInput

namespace Relative

/-- The family as a document in which the parent and the elder child have the same width. -/
def wideTree : StyledTree Relative :=
  { tree fun _ => .none with
    inline? := fun e =>
      if e = .younger then none else some [⟨.known .width, .length ⟨10, .px⟩, false⟩] }

theorem lawful_wideTree : wideTree.Lawful :=
  { lawful_tree fun _ => .none with }

end Relative

/-- A history holds the last calls, as many as its limit allows, in their order, and finds the last
one with an equal signature. A pass remembers the siblings before an element that got a style, as
far as the limit goes, and an element that gets a style shares groups with the nearest of them that
has an equal signature. Only if there is none, it shares groups with its parent. -/
theorem Styler.shares_within_window {t : StyledTree ε} (ht : t.Lawful) (hkeys : t.KeysDistinct) :
    (∀ (limit : Nat) (calls : List (ElementKey × Signature)),
      let h := (SiblingHistory.empty limit).rememberAll calls
      h.entries.reverse = calls.rtake limit ∧ h.size = min limit calls.length ∧
      ∀ signature,
        (∀ key, h.find? signature = some key ↔
          ∃ before found after, calls = before ++ (key, found) :: after ∧ after.length < limit ∧
            (found == signature) = true ∧ ∀ call ∈ after, (call.2 == signature) = false) ∧
        (h.find? signature = none ↔ ∀ call ∈ calls.rtake limit, (call.2 == signature) = false)) ∧
    ∀ (s : Styler) (e : ε),
      (∀ parent, ∀ a ∈ s.stations t parent e, ∃ near ⊆ s.stations t parent e,
        (a.element = e ∧ near = [] ∨ a.element ≠ e ∧
          near.map (·.element) = s.settings.window t (t.preceding a.element)) ∧
        a.history.entries = near.map (Station.entry t) ∧
        (∀ b ∈ near, b.Committed t a.state.styler) ∧
        ∀ style history p, a.style t = .ok (some (style, history), p) →
          ∃ full q n, a.own t = .ok (full, q) ∧ a.Compacts t near full style n ∧
            p.report.shared = a.state.report.shared + n) ∧
      ∀ s' r, s.restyle t e = .ok (s', r) → ∃ parent, s.parentStyle t e = .ok parent ∧
        (s.stations t parent e).map (·.element) = t.met (t.branch e) := by
  refine ⟨fun limit calls => ⟨SiblingHistory.reverse_entries_rememberAll,
    SiblingHistory.size_rememberAll, fun signature =>
      ⟨fun key => SiblingHistory.find?_rememberAll_eq_some_iff,
        SiblingHistory.find?_rememberAll_eq_none_iff⟩⟩,
    fun s e => ⟨fun parent a ha => ?_, fun s' r => Styler.map_element_stations⟩⟩
  obtain ⟨l, hplace, near, hnear, hrecalls⟩ := Styler.recalls_stations ht hkeys s parent e a ha
  refine ⟨near, hnear, ?_, hrecalls.entries, hrecalls.committed, fun style history p hstyle => ?_⟩
  · have helements := hrecalls.elements
    rcases hplace with ⟨htop, rfl⟩ | ⟨hup, rfl⟩
    · exact .inl ⟨htop, by simpa [Settings.window] using helements⟩
    · exact .inr ⟨fun htop => ht.not_mem_ancestors_self e (htop ▸ hup), helements⟩
  · obtain ⟨full, q, n, hfull, hcompacts, -, hshared⟩ := Station.exists_of_style hrecalls hstyle
    exact ⟨full, q, n, hfull, hcompacts, (Station.of_own hfull).2 ▸ hshared⟩

/-- In a family the younger child looks at the elder one. -/
theorem Styler.shares_within_window_family :
    let t := Relative.tree fun _ => .none
    let s := create .default .approximate Relative.sheets .screen
    ∃ s' r, s.restyle t .parent = .ok (s', r) ∧
      ∃ a ∈ s.stations t none .parent, ∃ b ∈ s.stations t none .parent, a.element = .younger ∧
        b.element = .elder ∧ a.history.entries = [b.entry t] ∧
        ∀ style history p, a.style t = .ok (some (style, history), p) →
          ∃ full q n, a.own t = .ok (full, q) ∧ a.Compacts t [b] full style n ∧
            p.report.shared = a.state.report.shared + n := by
  intro t s
  have ht : t.Lawful := Relative.lawful_tree _
  have hkeys : t.KeysDistinct := Relative.keysDistinct_tree _
  obtain ⟨s', r, -, hrun, -, -⟩ := exists_restyle_walk ht hkeys
    (RuleIndex.fitting_build Relative.fitting_sheets) (Relative.fitting_tree _) rfl
    (rfl : s.parentStyle t .parent = .ok none)
  obtain ⟨hpass, hmet⟩ := (shares_within_window ht hkeys).2 s .parent
  obtain ⟨parent, hparent, hstations⟩ := hmet s' r hrun
  obtain rfl : none = parent := Except.ok.inj hparent
  have hyounger : Relative.younger ∈ (s.stations t none .parent).map (·.element) := by
    rw [hstations, StyledTree.met_eq_elements _ fun _ _ => rfl]
    simp [t, Relative.tree, Relative.branch, Branch.elements, Branch.elementsOfAll]
  obtain ⟨a, ha, helement⟩ := List.mem_map.mp hyounger
  obtain ⟨near, hnear, hplace, hentries, -, hstyled⟩ := hpass none a ha
  rw [helement] at hplace
  rcases hplace with ⟨htop, -⟩ | ⟨-, helements⟩
  · cases htop
  · have helements : near.map (·.element) = [.elder] := helements
    obtain ⟨b, rfl, hb⟩ := List.map_eq_singleton_iff.mp helements
    exact ⟨s', r, hrun, a, ha, b, hnear List.mem_cons_self, helement, hb, hentries, hstyled⟩

/-- The elder child of a family has no sibling before it, and shares the width of its parent: its
own style has seven groups in common with that of its parent, and the style that it gets has all
eight. -/
theorem Styler.shares_with_parent_family :
    let t := Relative.wideTree
    let s := create .default .approximate ⟨.standards, []⟩ .screen
    t.preceding .elder = [] ∧ s.parentStyle t .parent = .ok none ∧
      ∃ a ∈ s.stations t none .parent, a.element = .elder ∧
        ∃ parent full q style history p, a.parent = some parent ∧ a.own t = .ok (full, q) ∧
          a.style t = .ok (some (style, history), p) ∧ full.sharedGroupCount parent = 7 ∧
          style.sharedGroupCount parent = 8 := by
  intro t s
  have hcount : SheetSet.Countable ⟨.standards, []⟩ .screen :=
    ⟨by decide, fun entry hentry => absurd hentry List.not_mem_nil⟩
  let i : PassInput Relative :=
    ⟨.default, .approximate, .build ⟨.standards, []⟩ .screen, s.digest, t⟩
  let n : NaivePass Relative := SheetSet.naivePass ⟨.standards, []⟩ .screen .default .approximate t
  have hnaive : i.naive = n := PassInput.naive_build hcount
  have hcomputed : (do
      let parent ← (n.contextOf .parent none (n.rootFontSizeAt .parent s.rootFontSize)).apply 1
        (n.declarations .parent none)
      let full ← (n.contextOf .elder (some parent) (n.rootFontSizeAt .elder
        (n.below .parent s.rootFontSize parent).rootFontSize)).apply 2 (n.declarations .elder none)
      pure (full.sharedGroupCount parent, (full.compactWith parent).sharedGroupCount parent)) =
        (.ok (7, 8) : Except StyleError (Nat × Nat)) := by
    decide +kernel
  obtain ⟨parent, hparent, hrest⟩ := exists_of_bind_eq_ok hcomputed
  obtain ⟨full, hfull, hcounts⟩ := exists_of_bind_eq_ok hrest
  obtain ⟨hseven, height⟩ := Prod.mk.inj (Except.ok.inj hcounts)
  have hpseudos (x : Relative) : n.pseudoElements x = [] := by
    cases x <;> decide +kernel
  rw [← hnaive] at hparent hfull hpseudos
  obtain ⟨a, ha, helement, hup, q, history, p, hown, hstyle⟩ := PassInput.exists_firstChild (i := i)
    Relative.lawful_wideTree (fun h => Relative.keysDistinct_tree (fun _ => .none) h)
    FontMetrics.fair_approximate rfl (fun _ => rfl) hpseudos (Reachable.create _ _ _).resting rfl
    hparent hfull
  exact ⟨rfl, rfl, a, ha, helement, parent, full, q, full.compactWith parent, history, p, hup, hown,
    hstyle, hseven, height⟩

end StyleEngine
