import StyleEngine.Proofs.Matching.Relink
import StyleEngine.Proofs.Pass.Follow

/-!
# Following a change of children

After the children of an element changed, the styler says whether to style its branch again. If this
is done, and then every child that was put in is styled, stored styles are as a pass over the whole
document by a new styler would make them. Behind the element this needs that no selector asks a
sibling to be empty: such a selector notes at the sibling what it read there, and its subjects are
not in the branch of the sibling, which is all that is styled again.

## Main definitions

* `Styler.followChildren`: styles again what the styler says, and then the children put in.

## Main statements

* `PassInput.UpToDate.exists_followChildren`: which elements a change of children leaves settled.
* `Styler.Reachable.followChildren_agrees`: their styles are those of a new styler.
* `Styler.followChildren_stale`: one that is not.
-/

namespace StyleEngine

variable {ε : Type}

namespace Styler

/-- Styles elements with all below them, one after the other. -/
def restyleAll (s : Styler) (t : StyledTree ε) : List ε → Except RestyleError Styler
  | [] => .ok s
  | e :: es => do
    let (s, _) ← s.restyle t e
    s.restyleAll t es

/-- Styles again what the styler says after the children of `p` changed, and then the children that
were put in. -/
def followChildren (s : Styler) (t : StyledTree ε) (p : ε) (news : List ε) :
    Except RestyleError Styler := do
  let s ← s.follow t p (.ofKinds [.structural, .backwardsStructural])
  s.restyleAll t news

variable {s s' : Styler} {t : StyledTree ε} {key : ElementKey}

/-- Passes over elements store styles under the keys of their branches only. -/
theorem styles_restyleAll {es : List ε}
    (hkey : ∀ e ∈ es, ∀ x ∈ (t.branch e).elements, t.key x ≠ key)
    (hrun : s.restyleAll t es = .ok s') : s'.styles[key]? = s.styles[key]? := by
  induction es generalizing s with
  | nil => rw [Except.ok.inj hrun]
  | cons e es ih =>
    rw [List.forall_mem_cons] at hkey
    obtain ⟨⟨mid, r⟩, hpass, hrun⟩ := exists_of_bind_eq_ok hrun
    exact (ih hkey.2 hrun).trans (styles_restyle hkey.1 hpass)

/-- For a change of structure the styler never looks beyond the branch of the element. -/
theorem scopeOf_structure_ne_parentSubtree :
    s.scopeOf key (.ofKinds [.structural, .backwardsStructural]) ≠ .parentSubtree := by
  unfold scopeOf
  dsimp only
  split
  · nofun
  · rw [if_neg]
    · nofun
    intro hmeets
    obtain ⟨k, -, hk⟩ := List.any_eq_true.mp hmeets
    simp only [DependencyKinds.has_ofKinds, Bool.and_eq_true, List.contains_iff_mem,
      List.mem_filter] at hk
    obtain ⟨⟨-, -, hstructure⟩, hstate⟩ := hk
    cases k <;> simp at hstructure hstate

/-- After a change of children, styles are stored under the keys of one branch only. -/
theorem styles_followChildren (ht : t.Lawful) {p : ε} {news : List ε}
    (hnews : ∀ c ∈ news, c ∈ t.children p) (hkey : ∀ x ∈ (t.branch p).elements, t.key x ≠ key)
    (hrun : s.followChildren t p news = .ok s') : s'.styles[key]? = s.styles[key]? := by
  have hkeys : ∀ c ∈ news, ∀ x ∈ (t.branch c).elements, t.key x ≠ key :=
    fun c hc x hx => hkey x (ht.mem_trans (ht.mem_of_mem_children (hnews c hc)) hx)
  obtain ⟨mid, hfollow, hrun⟩ := exists_of_bind_eq_ok hrun
  rw [styles_restyleAll hkeys hrun]
  rw [follow] at hfollow
  cases hscope : s.scopeOf (t.key p) (.ofKinds [.structural, .backwardsStructural]) with
  | nothing =>
    rw [hscope] at hfollow
    rw [Except.ok.inj hfollow]
  | subtree =>
    rw [hscope] at hfollow
    obtain ⟨⟨mid, r⟩, hpass, hmid⟩ := exists_of_bind_eq_ok hfollow
    obtain rfl := Except.ok.inj hmid
    exact styles_restyle hkey hpass
  | parentSubtree => exact absurd hscope scopeOf_structure_ne_parentSubtree

end Styler

namespace PassInput

variable {i : PassInput ε} {root p x : ε} {t' : StyledTree ε} {s : Styler}

section Restyle

variable (ht : i.tree.Rooted root) (hfair : i.metrics.Fair)
  (hfits : ∀ x ∈ (i.tree.branch root).elements, i.naive.Fits x)

include ht hfair hfits

/-- Passes over elements below the root settle their branches, and leave settled what is, if their
parents are settled to begin with. -/
theorem exists_restyleAll (hs : s.Resting i.settings i.metrics i.index i.digest) {mem : ε → Prop}
    (hmem : ∀ {x}, mem x → x ∈ (i.tree.branch root).elements)
    (hsettled : ∀ {x}, mem x → i.Settled s x) (es : List ε)
    (hes : ∀ e ∈ es, ∃ p, mem p ∧ e ∈ i.tree.children p) :
    ∃ s', s.restyleAll i.tree es = .ok s' ∧
      ∀ x, (mem x ∨ ∃ e ∈ es, x ∈ (i.tree.branch e).elements) → i.Settled s' x := by
  induction es generalizing s mem with
  | nil => exact ⟨s, rfl, fun x hx => hsettled (by simpa using hx)⟩
  | cons e es ih =>
    obtain ⟨p, hp, hchild⟩ := hes e List.mem_cons_self
    have he : e ∈ (i.tree.branch root).elements :=
      ht.mem_trans (hmem hp) (ht.mem_of_mem_children hchild)
    have hparent {q : ε} (hq : i.tree.parent? e = some q) : mem q := by
      rw [ElementTree.parent?, ht.ancestors_of_mem_children hchild, List.head?_cons] at hq
      exact Option.some.inj hq ▸ hp
    obtain ⟨s', r, hrun, hsettled'⟩ :=
      exists_restyle_branch ht hfair hfits hs he hmem hparent fun hx _ => hsettled hx
    have hmem' {x : ε} (hx : mem x ∨ x ∈ (i.tree.branch e).elements) :
        x ∈ (i.tree.branch root).elements :=
      hx.elim hmem (ht.mem_trans he)
    have hes' : ∀ e' ∈ es, ∃ p, (mem p ∨ p ∈ (i.tree.branch e).elements) ∧
        e' ∈ i.tree.children p := by
      intro e' he'
      obtain ⟨p', hp', hchild'⟩ := hes e' (List.mem_cons_of_mem e he')
      exact ⟨p', .inl hp', hchild'⟩
    obtain ⟨s'', hrun', hsettled''⟩ :=
      ih (hs.restyle hrun) @hmem' (fun {x} => hsettled' x) hes'
    refine ⟨s'', (bind_of_eq_ok hrun).trans hrun', fun x hx => hsettled'' x ?_⟩
    rw [List.exists_mem_cons_iff] at hx
    rwa [or_assoc]

end Restyle

/-! ## What a change leaves -/

/-- If nothing has to be styled again, then no reading that is noted sees the change. -/
theorem overlooks_of_scopeOf
    (hscope : s.scopeOf (i.tree.key p) (.ofKinds [.structural, .backwardsStructural]) = .nothing)
    (h : i.Settled s x) : ∀ r ∈ i.heard x, Overlooks p r := by
  intro r hr hp
  have hnoted (k : DependencyKind)
      (hk : (DependencyKinds.ofKinds [.structural, .backwardsStructural]).has k = true) :
      k ∉ r.2 := by
    intro hmem
    have hnoted := h.noted r hr k hmem
    rw [hp, Styler.not_noted_of_scopeOf hscope hk] at hnoted
    cases hnoted
  exact ⟨hnoted .structural rfl, hnoted .backwardsStructural rfl⟩

section Relinked

variable (ht : i.tree.Rooted root) (ht' : t'.Rooted root) (hedit : i.tree.Relinked t' root p)

include ht ht' hedit

/-- An element that stays is settled on the new tree if neither it nor an ancestor has read what
changed. -/
theorem Settled.relink (hx : i.tree.Stays t' root x)
    (hoverlooks : ∀ a ∈ x :: i.tree.ancestors x, ∀ r ∈ i.heard a, Overlooks p r)
    (h : i.Settled s x) : (i.withTree t').Settled s x :=
  h.withTree (hedit.agrees ht ht' i.index.mode) ht.lawful.toLawful ht'.lawful.toLawful hx hoverlooks

/-- Styling again what the styler says, and then the children that were put in, comes to an end. It
leaves an element settled, unless it is outside the branch and it or an ancestor has read the
structure that changed. -/
theorem UpToDate.exists_followChildren (h : i.UpToDate root s) (hfair : i.metrics.Fair)
    (hfits : ∀ x ∈ (t'.branch root).elements, (i.withTree t').naive.Fits x)
    (hp : p ∈ (i.tree.branch root).elements) {news : List ε}
    (hnews : ∀ c, c ∈ news ↔ i.tree.Inserted t' p c) :
    ∃ s', s.followChildren t' p news = .ok s' ∧
      ∀ x ∈ (t'.branch root).elements,
        (x ∉ (t'.branch p).elements →
          ∀ a ∈ x :: t'.ancestors x, ∀ r ∈ i.heard a, Overlooks p r) →
        (i.withTree t').Settled s' x := by
  have hstays : i.tree.Stays t' root p := hedit.stays ht ht' hp
  have hscopeOf : s.scopeOf (t'.key p) = s.scopeOf (i.tree.key p) := by rw [hedit.key]
  cases hscope : s.scopeOf (i.tree.key p) (.ofKinds [.structural, .backwardsStructural]) with
  | nothing =>
    have hkept {x : ε} (hx : i.tree.Stays t' root x) : (i.withTree t').Settled s x := by
      refine (h.settled x hx.before).relink ht ht' hedit hx fun a ha => ?_
      exact overlooks_of_scopeOf hscope (h.settled a (ht.mem_of_ancestor hx.before ha).1)
    obtain ⟨s', hrun, hsettled⟩ := exists_restyleAll (i := i.withTree t') ht' hfair hfits
      h.resting (fun hx => hx.after) hkept news fun c hc => ⟨p, hstays, ((hnews c).mp hc).1⟩
    refine ⟨s', ?_, fun x hx _ => hsettled x ?_⟩
    · rw [Styler.followChildren, Styler.follow, hscopeOf, hscope]
      exact hrun
    · refine (hedit.stays_or_below ht ht' hx).imp id ?_
      rintro ⟨c, hc, hx⟩
      exact ⟨c, (hnews c).mpr hc, hx⟩
  | subtree =>
    let mem (x : ε) : Prop := x ∈ (t'.branch root).elements ∧ (x ∉ (t'.branch p).elements →
      ∀ a ∈ x :: t'.ancestors x, ∀ r ∈ i.heard a, Overlooks p r)
    -- What is above `p` looks at nothing in the branch of `p`.
    have hparent {q : ε} (hq : t'.parent? p = some q) : mem q := by
      rw [hstays.parent?] at hq
      have hq : q ∈ i.tree.ancestors p := List.mem_of_head? hq
      refine ⟨(hstays.ancestor ht ht' hq).after, fun _ a ha r hr heq => ?_⟩
      have ha : a ∈ i.tree.ancestors p := by
        rw [(hstays.ancestor ht ht' hq).ancestors] at ha
        exact (ht.cons_ancestors_suffix hq).subset ha
      have hreaches := RuleIndex.reaches_of_mem_heard ht.lawful.toLawful hr
      exact absurd (heq ▸ hreaches) (ht.not_reaches_of_mem_ancestors hp ha)
    have hout {x : ε} (hx : mem x) (hout : x ∉ (t'.branch p).elements) :
        (i.withTree t').Settled s x := by
      obtain ⟨hstays, -⟩ := hedit.stays_of_not_mem_branch ht ht' hx.1 hout
      refine (h.settled x hstays.before).relink ht ht' hedit hstays ?_
      rw [← hstays.ancestors]
      exact hx.2 hout
    obtain ⟨s', r, hrun, hsettled⟩ := exists_restyle_branch (i := i.withTree t') ht' hfair hfits
      h.resting hstays.after (fun hx => hx.1) hparent hout
    obtain ⟨s'', hrun', hsettled'⟩ := exists_restyleAll (i := i.withTree t') ht' hfair hfits
      (h.resting.restyle hrun) (fun hx => hx.1) (fun hx => hsettled _ (.inl hx)) news
      fun c hc => ⟨p, ⟨hstays.after, fun hout => absurd (ht'.mem_elements_self p) hout⟩,
        ((hnews c).mp hc).1⟩
    refine ⟨s'', ?_, fun x hx hread => hsettled' x (.inl ⟨hx, hread⟩)⟩
    rw [Styler.followChildren, Styler.follow, hscopeOf, hscope]
    exact (bind_of_eq_ok (congrArg (Except.map Prod.fst) hrun)).trans hrun'
  | parentSubtree => exact absurd hscope Styler.scopeOf_structure_ne_parentSubtree

end Relinked

end PassInput

/-! ## Stylers -/

/-- After a pass over the root, a change of the children of one element, and as much styling as the
styler says, stored styles are those that a new styler, whatever its digests, stores in a pass over
the whole document, but for the signs of zeros and for what groups are shared. The two are equal
unless a number in them is none. Behind the element, this needs that no selector asks a sibling to
be empty. -/
theorem Styler.Reachable.followChildren_agrees {settings : Settings} {set : SheetSet} {m : Medium}
    {s : Styler} (hs : Reachable settings .approximate set m s) (hset : set.Fitting m)
    {t t' : StyledTree ε} {root p : ε} (ht : t.Rooted root) (hfits : t.Fitting root)
    (ht' : t'.Rooted root) (hfits' : t'.Fitting root) (hp : p ∈ (t.branch root).elements)
    (hedit : t.Relinked t' root p) {news : List ε} (hnews : ∀ c, c ∈ news ↔ t.Inserted t' p c)
    (digest : Feature → Digest) : ∃ first r s' fresh r', s.restyle t root = .ok (first, r) ∧
      first.followChildren t' p news = .ok s' ∧
      (Styler.create settings .approximate set m digest).restyle t' root = .ok (fresh, r') ∧
      ∀ e ∈ (t'.branch root).elements, set.KeepsEmptyInside m ∨ ¬t'.Behind p e →
        ∃ style style', s'.styles[t'.key e]? = some style ∧
          fresh.styles[t'.key e]? = some style' ∧ style.plainForm = style'.plainForm ∧
          (style.Numeric → (style == style') = true) := by
  have hfair : FontMetrics.approximate.Fair := FontMetrics.fair_approximate
  let i : PassInput ε := ⟨settings, .approximate, .build set m, s.digest, t⟩
  obtain ⟨first, r, hfirst, hsettled⟩ := PassInput.exists_restyle_root (i := i) ht hfair
    (fun x hx => PassInput.fits_naive_build hset hfits hx) hs.resting
  obtain ⟨s', hfollow, hsettled'⟩ := PassInput.UpToDate.exists_followChildren ht ht' hedit
    ⟨hs.resting.restyle hfirst, hsettled⟩ hfair
    (fun x hx => PassInput.fits_naive_build hset hfits' hx) hp hnews
  obtain ⟨fresh, r', hfresh, hsettled''⟩ := PassInput.exists_restyle_root
    (i := { i.withTree t' with digest := digest }) ht' hfair
    (fun x hx => PassInput.fits_naive_build hset hfits' hx) (Reachable.create set m digest).resting
  refine ⟨first, r, s', fresh, r', hfirst, hfollow, hfresh, fun e he hcase => ?_⟩
  refine (hsettled' e he fun hout a ha r hr => ?_).exists_styles (hsettled'' e he)
  rcases hcase with hempty | hbehind
  · obtain ⟨hstays, hout⟩ := hedit.stays_of_not_mem_branch ht ht' he hout
    obtain ⟨hmem, hea⟩ := ht.mem_of_ancestor hstays.before (hstays.ancestors ▸ ha)
    have hout' : a ∉ (t.branch p).elements := fun hin => hout (ht.mem_trans hin hea)
    exact RuleIndex.overlooks_of_mem_heard ht hempty hmem hout' hr
  · intro heq
    have hreaches := RuleIndex.reaches_of_mem_heard ht.lawful.toLawful hr
    exact absurd (heq ▸ hreaches) (hedit.not_reaches ht ht' he hout hbehind ha)

namespace Kin

/-- Sheets with one rule, that lets what a selector matches float to the left. -/
def sheets (selector : Complex) : SheetSet where
  mode := .standards
  sheets := [⟨.author, [⟨[selector], [⟨.known .float, .floating .left, false⟩]⟩], none⟩]

theorem countable_sheets (selector : Complex) : (sheets selector).Countable .screen where
  rules_lt := show 1 < UInt32.size by decide
  selectors_le entry hentry := by
    rw [List.mem_singleton.mp hentry]
    exact show 1 ≤ UInt16.size by decide

theorem fitting_sheets (selector : Complex) : (sheets selector).Fitting .screen := by
  intro entry hentry d hd
  rw [List.mem_singleton.mp hentry] at hd
  rw [List.mem_singleton.mp hd]
  exact Declaration.fits_of_root rfl

theorem fitting_tree (born : Bool) : (tree born).Fitting parent := by
  rintro e - block (h | h) <;> cases h

theorem elder_mem : elder ∈ ((tree false).branch parent).elements := by
  simp [tree, branch, elderBranch, Branch.elements, Branch.elementsOfAll]

theorem younger_mem (born : Bool) : younger ∈ ((tree born).branch parent).elements := by
  simp [tree, branch, Branch.elements, Branch.elementsOfAll]

end Kin

/-- Whether the style that is stored for an element that is settled floats is what the naive style
says. -/
theorem PassInput.Settled.exists_isFloating {set : SheetSet} {m : Medium} {settings : Settings}
    {metrics : FontMetrics} {digest : Feature → Digest} {t : StyledTree ε} {s : Styler} {e : ε}
    (hcount : set.Countable m)
    (h : Settled ⟨settings, metrics, .build set m, digest, t⟩ s e) (floats : Bool)
    (hnaive : ((set.naivePass m settings metrics t).style e).map ComputedStyle.isFloating =
      .ok floats) :
    ∃ style, s.styles[t.key e]? = some style ∧ style.isFloating = floats := by
  obtain ⟨style, style', hstored, hstyle', hplain⟩ := h.exists_style hcount
  rw [hstyle'] at hnaive
  refine ⟨style, hstored, ?_⟩
  rw [ComputedStyle.isFloating_eq_of_plainForm hplain]
  exact Except.ok.inj hnaive

/-- A grandchild is born to an elder child that floated while it was empty. -/
theorem Styler.Reachable.followChildren_agrees_kin :
    let set := Kin.sheets ⟨[.pseudoClass .empty], []⟩
    let s := Styler.create .default .approximate set .screen
    ∃ first r s' fresh r', s.restyle (Kin.tree false) .parent = .ok (first, r) ∧
      first.followChildren (Kin.tree true) .elder [.grandchild] = .ok s' ∧
      s.restyle (Kin.tree true) .parent = .ok (fresh, r') ∧
      ∀ e ∈ ((Kin.tree true).branch .parent).elements,
        ∃ style style', s'.styles[(Kin.tree true).key e]? = some style ∧
          fresh.styles[(Kin.tree true).key e]? = some style' ∧
          style.plainForm = style'.plainForm ∧ (style.Numeric → (style == style') = true) := by
  intro set s
  have hempty : set.KeepsEmptyInside .screen := by
    intro entry hentry selector hselector
    rw [List.mem_singleton.mp hentry] at hselector
    rw [List.mem_singleton.mp hselector]
    rfl
  obtain ⟨first, r, s', fresh, r', hfirst, hfollow, hfresh, hstyles⟩ :=
    (Reachable.create set .screen _).followChildren_agrees (Kin.fitting_sheets _)
      (Kin.rooted_tree false) (Kin.fitting_tree false) (Kin.rooted_tree true)
      (Kin.fitting_tree true) Kin.elder_mem Kin.relinked_tree (fun _ => Kin.inserted_iff) hash
  exact ⟨first, r, s', fresh, r', hfirst, hfollow, hfresh,
    fun e he => hstyles e he (.inl hempty)⟩

/-- What comes after an empty sibling floats. When a grandchild is born to the elder child, the
younger one should not float any longer, but its style is left as it was. -/
theorem Styler.followChildren_stale :
    let set := Kin.sheets ⟨[.universal], [(.adjacentSibling, [.pseudoClass .empty])]⟩
    let s := Styler.create .default .approximate set .screen
    ∃ first r s' fresh r' style style', s.restyle (Kin.tree false) .parent = .ok (first, r) ∧
      first.followChildren (Kin.tree true) .elder [.grandchild] = .ok s' ∧
      s.restyle (Kin.tree true) .parent = .ok (fresh, r') ∧
      s'.styles[(Kin.tree true).key .younger]? = some style ∧
      fresh.styles[(Kin.tree true).key .younger]? = some style' ∧
      style.isFloating = true ∧ style'.isFloating = false ∧ (style == style') = false := by
  intro set s
  have hfair : FontMetrics.approximate.Fair := FontMetrics.fair_approximate
  have hcount : set.Countable .screen := Kin.countable_sheets _
  let i (born : Bool) : PassInput Kin :=
    ⟨.default, .approximate, .build set .screen, s.digest, Kin.tree born⟩
  have hfits (born : Bool) :
      ∀ x ∈ ((Kin.tree born).branch .parent).elements, (i born).naive.Fits x :=
    fun x hx => PassInput.fits_naive_build (Kin.fitting_sheets _) (Kin.fitting_tree born) hx
  have hs : s.Resting .default .approximate (.build set .screen) s.digest :=
    (Reachable.create set .screen _).resting
  obtain ⟨first, r, hfirst, hsettled⟩ :=
    PassInput.exists_restyle_root (i := i false) (Kin.rooted_tree false) hfair (hfits false) hs
  obtain ⟨s', hfollow, -⟩ := PassInput.UpToDate.exists_followChildren (Kin.rooted_tree false)
    (Kin.rooted_tree true) Kin.relinked_tree ⟨hs.restyle hfirst, hsettled⟩ hfair (hfits true)
    Kin.elder_mem fun _ => Kin.inserted_iff
  obtain ⟨fresh, r', hfresh, hsettled'⟩ :=
    PassInput.exists_restyle_root (i := i true) (Kin.rooted_tree true) hfair (hfits true) hs
  have hkept : s'.styles[(Kin.tree true).key .younger]? =
      first.styles[(Kin.tree true).key .younger]? := by
    refine styles_followChildren (Kin.rooted_tree true).lawful
      (fun c hc => (Kin.inserted_iff.mp hc).1) ?_ hfollow
    intro x hx
    cases x with
    | elder | grandchild => decide
    | parent | younger =>
      simp [Kin.tree, Kin.branch, Kin.elderBranch, Branch.elements, Branch.elementsOfAll] at hx
  obtain ⟨style, hstyle, hfloats⟩ :=
    (hsettled .younger (Kin.younger_mem false)).exists_isFloating hcount true (by decide +kernel)
  obtain ⟨style', hstyle', hfloats'⟩ :=
    (hsettled' .younger (Kin.younger_mem true)).exists_isFloating hcount false (by decide +kernel)
  refine ⟨first, r, s', fresh, r', style, style', hfirst, hfollow, hfresh, hkept.trans hstyle,
    hstyle', hfloats, hfloats', Bool.eq_false_iff.mpr fun hbeq => ?_⟩
  rw [ComputedStyle.isFloating_eq_of_beq hbeq, hfloats'] at hfloats
  cases hfloats

end StyleEngine
