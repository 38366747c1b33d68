import StyleEngine.Proofs.Cascade.Fitting
import StyleEngine.Proofs.Pass.History
import StyleEngine.Proofs.Pass.Run
import StyleEngine.Proofs.Tree.Family

/-!
# A pass comes to the naive styles

A pass over the root of a document, from any styler that can be reached, stores for every element a
style with the plain form of the naive one. A pass over another element does the same for its
branch, if the elements outside are settled.

## Main definitions

* `SheetSet.naivePass`: the declarations that plain matching finds, sorted.

## Main statements

* `PassInput.exists_restyle_root`, `PassInput.exists_restyle_below`: what a pass does.
* `Styler.Reachable.restyle_agrees`: it agrees with the naive pass over the sheets.
-/

namespace StyleEngine

variable {ε : Type}

namespace PassInput

variable {i : PassInput ε} {root e : ε} {region : i.tree.Region root} {done : ε → Prop}
  {s : Styler}

/-- A pass starts with elements that are settled, and with no answer that can be read. -/
theorem midway_beginPass (ht : i.tree.Rooted root)
    (hs : s.Resting i.settings i.metrics i.index i.digest) (hmem : ∀ {x}, done x → region.mem x)
    (hsettled : ∀ {x}, done x → i.Settled (s.beginPass i.tree e) x) :
    i.Midway region done (s.beginPass i.tree e) where
  toSetUp := { hs.toSetUp with }
  sound :=
    { eq_of_key := fun _ _ _ ha hb hkey =>
        ht.key_injective (region.mem_elements ha) (region.mem_elements hb) hkey
      answers := by
        rintro cache ⟨⟩ k outcome hk
        exact absurd ((hs.dated.current?_beginPass k).symm.trans hk) nofun }
  done_mem := hmem
  settled := hsettled

section Restyle

variable (ht : i.tree.Rooted root) (hfair : i.metrics.Fair)
  (hfits : ∀ x ∈ (i.tree.branch root).elements, i.naive.Fits x)

include ht hfair hfits

theorem exists_restyle {parent : Option ComputedStyle} (hmem : region.mem e)
    (hparent : s.parentStyle i.tree e = .ok parent)
    (h : i.Midway region done (s.beginPass i.tree e))
    (hnew : ∀ x ∈ (i.tree.branch e).elements, x ≠ e → ¬region.mem x)
    (hready : i.Ready done s.rootFontSize e parent) :
    ∃ s' r, s.restyle i.tree e = .ok (s', r) ∧
      i.Passed region done (i.tree.branch e).elements s' := by
  have he := region.mem_elements hmem
  obtain ⟨history, s', r, hrun, hpassed, -⟩ := stylesBranch ht hfair hfits he .empty
    (.empty s.settings.scanLimit) h hmem hnew (s.filtered_beginPass i.tree e) hready
  refine ⟨s', r, ?_, hpassed⟩
  rw [Styler.restyle, if_pos (ht.connected he), hparent]
  dsimp only
  rw [hrun]

/-- A pass over the root settles every element. -/
theorem exists_restyle_root (hs : s.Resting i.settings i.metrics i.index i.digest) :
    ∃ s' r, s.restyle i.tree root = .ok (s', r) ∧
      ∀ x ∈ (i.tree.branch root).elements, i.Settled s' x := by
  have hmidway : i.Midway (.top ht) (fun _ => False) (s.beginPass i.tree root) :=
    midway_beginPass ht hs False.elim False.elim
  have hparent : s.parentStyle i.tree root = .ok none := by
    rw [Styler.parentStyle, ElementTree.parent?, ht.ancestors_root]
    rfl
  have hready : i.Ready (fun _ => False) s.rootFontSize root none :=
    ⟨ht.ancestors_root, fun _ h => h⟩
  obtain ⟨s', r, hrun, region', -, hpassed⟩ :=
    exists_restyle ht hfair hfits rfl hparent hmidway (fun _ _ hne => hne) hready
  exact ⟨s', r, hrun, fun x hx => hpassed.settled (.inl hx)⟩

/-- A pass over an element below the root settles its branch, and leaves settled what is settled
outside, if its parent is. -/
theorem exists_restyle_below (hs : s.Resting i.settings i.metrics i.index i.digest)
    (he : e ∈ (i.tree.branch root).elements) (hne : e ≠ root) {mem : ε → Prop}
    (hmem : ∀ {x}, mem x → x ∈ (i.tree.branch root).elements)
    (hparent : ∀ {p}, i.tree.parent? e = some p → mem p)
    (hsettled : ∀ {x}, mem x → x ∉ (i.tree.branch e).elements → i.Settled s x) :
    ∃ s' r, s.restyle i.tree e = .ok (s', r) ∧
      ∀ x, mem x ∨ x ∈ (i.tree.branch e).elements → i.Settled s' x := by
  obtain ⟨p, hp, c, hc, rfl⟩ := ht.exists_child he hne
  obtain ⟨-, hup⟩ := ht.branch_child hc
  have hp : i.tree.parent? c.element = some p := by rw [ElementTree.parent?, hup, List.head?_cons]
  -- The parent is outside the branch, since the way up from it is shorter.
  have hpout : p ∉ (i.tree.branch c.element).elements := by
    intro hin
    have hlen := (ht.cons_ancestors_suffix_of_mem hin).length_le
    rw [List.length_cons, List.length_cons, hup, List.length_cons] at hlen
    omega
  obtain ⟨⟨style, hstored, hagrees⟩, -⟩ := hsettled (hparent hp) hpout
  have hparentStyle : s.parentStyle i.tree c.element = .ok (some style) := by
    rw [Styler.parentStyle, hp]
    simp only [hstored]
  have hnotroot : ¬i.tree.isRoot c.element = true := fun h => hne ((ht.isRoot_iff he).mp h)
  let done (x : ε) : Prop := mem x ∧ x ∉ (i.tree.branch c.element).elements
  have hstart {x : ε} (hx : done x) : i.Settled (s.beginPass i.tree c.element) x := by
    obtain ⟨hstyle, hnoted⟩ := hsettled hx.1 hx.2
    refine ⟨hstyle, ?_⟩
    rw [Styler.beginPass, if_neg hnotroot]
    exact hnoted
  have hmidway : i.Midway (.outside ht c.element) done (s.beginPass i.tree c.element) :=
    midway_beginPass ht hs (fun hx => ⟨hmem hx.1, fun hin => absurd hin hx.2⟩) hstart
  have htop : (StyledTree.Region.outside ht c.element).mem c.element := ⟨he, fun _ => rfl⟩
  have hready : i.Ready done s.rootFontSize c.element (some style) := ⟨p, hup, hagrees⟩
  have hnew : ∀ x ∈ (i.tree.branch c.element).elements, x ≠ c.element →
      ¬(StyledTree.Region.outside ht c.element).mem x := by
    intro x hx hxe hin
    exact hxe (hin.2 hx)
  obtain ⟨s', r, hrun, region', -, hpassed⟩ :=
    exists_restyle ht hfair hfits htop hparentStyle hmidway hnew hready
  refine ⟨s', r, hrun, fun x hx => hpassed.settled ?_⟩
  by_cases hin : x ∈ (i.tree.branch c.element).elements
  · exact .inl hin
  · exact .inr ⟨hx.resolve_right hin, hin⟩

/-- A pass over any element does the same. -/
theorem exists_restyle_branch (hs : s.Resting i.settings i.metrics i.index i.digest)
    (he : e ∈ (i.tree.branch root).elements) {mem : ε → Prop}
    (hmem : ∀ {x}, mem x → x ∈ (i.tree.branch root).elements)
    (hparent : ∀ {p}, i.tree.parent? e = some p → mem p)
    (hsettled : ∀ {x}, mem x → x ∉ (i.tree.branch e).elements → i.Settled s x) :
    ∃ s' r, s.restyle i.tree e = .ok (s', r) ∧
      ∀ x, mem x ∨ x ∈ (i.tree.branch e).elements → i.Settled s' x := by
  by_cases hroot : e = root
  · subst hroot
    obtain ⟨s', r, hrun, hsettled'⟩ := exists_restyle_root ht hfair hfits hs
    exact ⟨s', r, hrun, fun x hx => hsettled' x (hx.elim hmem id)⟩
  · exact exists_restyle_below ht hfair hfits hs he hroot hmem hparent hsettled

end Restyle

end PassInput

/-! ## Sheets -/

/-- The pass without any memory over sheets: for each element, the declarations that plain matching
finds, sorted. -/
def SheetSet.naivePass (set : SheetSet) (m : Medium) (settings : Settings) (metrics : FontMetrics)
    (t : StyledTree ε) : NaivePass ε where
  settings := settings
  metrics := metrics
  tree := t
  entries e target := Priority.sortBy Entry.priority (set.entries m t e target)

namespace PassInput

variable {set : SheetSet} {m : Medium} {settings : Settings} {metrics : FontMetrics}
  {digest : Feature → Digest} {t : StyledTree ε} {root e : ε}

/-- The pass over an index of sheets is the pass over the sheets. -/
theorem naive_build (h : set.Countable m) :
    naive ⟨settings, metrics, .build set m, digest, t⟩ = set.naivePass m settings metrics t := by
  have hentries (e : ε) (target : Option PseudoElement) :
      ((RuleIndex.build set m).gather t e).entriesOf target =
        Priority.sortBy Entry.priority (set.entries m t e target) :=
    (RuleIndex.gather_build h t e).2 target
  simp only [naive, SheetSet.naivePass, hentries]

theorem fits_naive_build (hset : set.Fitting m) (ht : t.Fitting root)
    (he : e ∈ (t.branch root).elements) :
    (naive ⟨settings, metrics, .build set m, digest, t⟩).Fits e := by
  intro target d hd
  obtain ⟨entry, hentry, rfl⟩ := List.mem_map.mp hd
  exact RuleIndex.fitting_gather hset ht he target entry hentry

/-- The style that is stored for an element that is settled has the plain form of the naive one. -/
theorem Settled.exists_style {s : Styler} (hcount : set.Countable m)
    (h : Settled ⟨settings, metrics, .build set m, digest, t⟩ s e) :
    ∃ style style', s.styles[t.key e]? = some style ∧
      (set.naivePass m settings metrics t).style e = .ok style' ∧
      style.plainForm = style'.plainForm := by
  obtain ⟨⟨style, hstored, hagrees⟩, -⟩ := h
  obtain ⟨style', hstyle', hplain⟩ := hagrees.exists_style
  exact ⟨style, style', hstored, naive_build hcount ▸ hstyle', hplain⟩

end PassInput

/-- A pass over the root of a document comes to an end, whatever the styler did before. It stores
for every element a style that differs from the naive one in the signs of zeros and in what groups
are shared at most, so that the two are equal unless a number in them is none. -/
theorem Styler.Reachable.restyle_agrees {settings : Settings} {set : SheetSet} {m : Medium}
    {s : Styler} (hs : Reachable settings .approximate set m s) (hcount : set.Countable m)
    (hset : set.Fitting m) {t : StyledTree ε} {root : ε} (ht : t.Rooted root)
    (hfits : t.Fitting root) :
    ∃ s' r, s.restyle t root = .ok (s', r) ∧ ∀ e ∈ (t.branch root).elements,
      ∃ style style', s'.styles[t.key e]? = some style ∧
        (set.naivePass m settings .approximate t).style e = .ok style' ∧
        style.plainForm = style'.plainForm ∧ (style.Numeric → (style == style') = true) := by
  let i : PassInput ε := ⟨settings, .approximate, .build set m, s.digest, t⟩
  have hnaive : i.naive = set.naivePass m settings .approximate t := PassInput.naive_build hcount
  obtain ⟨s', r, hrun, hsettled⟩ := PassInput.exists_restyle_root (i := i) ht
    FontMetrics.fair_approximate (fun x hx => PassInput.fits_naive_build hset hfits hx) hs.resting
  refine ⟨s', r, hrun, fun e he => ?_⟩
  obtain ⟨⟨style, hstored, hagrees⟩, -⟩ := hsettled e he
  obtain ⟨style', hstyle', hplain⟩ := hagrees.exists_style
  exact ⟨style, style', hstored, hnaive ▸ hstyle', hplain, fun h => h.beq_of_plainForm_eq hplain⟩

namespace Relative

/-- Sheets for the family: items float to the left while they are hovered over, and have something
before them. -/
def sheets : SheetSet where
  mode := .standards
  sheets :=
    [⟨.userAgent, [⟨[⟨[.tag "li", .pseudoClass .hover], []⟩],
        [⟨.known .float, .floating .left, false⟩]⟩], none⟩,
      ⟨.author, [⟨[⟨[.tag "li", .pseudoElement .before], [(.child, [.tag "ul"])]⟩],
        [⟨.known .content, .content [], true⟩]⟩], none⟩]

theorem countable_sheets : sheets.Countable .screen where
  rules_lt := by decide
  selectors_le entry hentry := by
    rcases List.mem_cons.mp hentry with rfl | hentry
    · decide
    · rw [List.mem_singleton.mp hentry]
      decide

theorem fitting_sheets : sheets.Fitting .screen := by
  intro entry hentry d hd
  rcases List.mem_cons.mp hentry with rfl | hentry
  · rw [List.mem_singleton.mp hd]
    exact Declaration.fits_of_root rfl
  · rw [List.mem_singleton.mp hentry] at hd
    rw [List.mem_singleton.mp hd]
    exact Declaration.fits_of_root rfl

theorem fitting_tree (state : Relative → ElementState) : (tree state).Fitting parent := by
  rintro e - block (h | h) <;> cases h

end Relative

/-- A styler that has styled a family once, for other sheets, and has forgotten the elder child. -/
theorem Styler.Reachable.restyle_agrees_family :
    let old := Relative.tree fun _ => .none
    let t := Relative.tree fun _ => .ofFlags [.hover]
    let start := Styler.create .default .approximate ⟨.quirks, []⟩ .screen
    ∃ s r, start.restyle old .parent = .ok (s, r) ∧
      let s := (s.replaceSheets Relative.sheets .screen).forget 1
      ∃ s' r', s.restyle t .parent = .ok (s', r') ∧ ∀ e ∈ (t.branch .parent).elements,
        ∃ style style', s'.styles[t.key e]? = some style ∧
          (Relative.sheets.naivePass .screen .default .approximate t).style e = .ok style' ∧
          style.plainForm = style'.plainForm ∧ (style.Numeric → (style == style') = true) := by
  intro old t start
  have hstart : Reachable .default .approximate ⟨.quirks, []⟩ .screen start := .create _ _ _
  have hempty : (⟨.quirks, []⟩ : SheetSet).Countable .screen :=
    ⟨by decide, fun entry hentry => absurd hentry List.not_mem_nil⟩
  obtain ⟨s, r, hrun, -⟩ := hstart.restyle_agrees hempty
    (fun entry hentry => absurd hentry List.not_mem_nil) (Relative.rooted_tree _)
    (Relative.fitting_tree _)
  have hs : Reachable .default .approximate Relative.sheets .screen
      ((s.replaceSheets Relative.sheets .screen).forget 1) :=
    .forget 1 (.replaceSheets _ _ (.restyle old .parent hstart hrun))
  exact ⟨s, r, hrun, hs.restyle_agrees Relative.countable_sheets Relative.fitting_sheets
    (Relative.rooted_tree _) (Relative.fitting_tree _)⟩

end StyleEngine
