import StyleEngine.Proofs.Matching.Change
import StyleEngine.Proofs.Pass.Restyle

/-!
# Following changes of state

After flags of an element change, the styler says how much to style again. If this is done each
time, every stored style stays as a pass over the whole document by a new styler would make it: an
element whose style hangs on a flag that changed has the flag among its readings, and these are
noted, so it is styled again.

## Main definitions

* `StateChange`: some flags of one element change.
* `Styler.follow`, `Styler.followAll`: styles again what the styler says.
* `PassInput.UpToDate`: every element is settled.

## Main statements

* `PassInput.UpToDate.follow`: one change leaves every element settled.
* `Styler.Reachable.followAll_agrees`: so does any number of them.
-/

namespace StyleEngine

variable {ε : Type}

/-! ## Changes -/

/-- The state with some flags changed. -/
def ElementState.flip (s : ElementState) (fs : List StateFlag) : ElementState :=
  .ofFlags (StateFlag.all.filter fun f => s.has f != fs.contains f)

theorem ElementState.has_flip (s : ElementState) (fs : List StateFlag) (f : StateFlag) :
    (s.flip fs).has f = (s.has f != fs.contains f) := by
  rw [flip, has_ofFlags, Bool.eq_iff_iff, List.contains_iff_mem, List.mem_filter]
  exact and_iff_right (StateFlag.mem_all f)

/-- Some flags of one element change. -/
structure StateChange (ε : Type) where
  element : ε
  flags : List StateFlag

namespace StateChange

/-- The inputs of the element that change. -/
def kinds (c : StateChange ε) : DependencyKinds :=
  .ofKinds (c.flags.map StateFlag.kind)

/-- The tree after the change. -/
def apply [DecidableEq ε] (c : StateChange ε) (t : StyledTree ε) : StyledTree ε :=
  t.withState fun x => if x = c.element then (t.state x).flip c.flags else t.state x

/-- The tree after changes, one after the other. -/
def applyAll [DecidableEq ε] (cs : List (StateChange ε)) (t : StyledTree ε) : StyledTree ε :=
  cs.foldl (fun t c => c.apply t) t

/-- Changes of state change states only. -/
theorem exists_applyAll_eq [DecidableEq ε] (cs : List (StateChange ε)) (t : StyledTree ε) :
    ∃ state, applyAll cs t = t.withState state := by
  induction cs generalizing t with
  | nil => exact ⟨t.state, rfl⟩
  | cons c cs ih =>
    obtain ⟨state, h⟩ := ih (c.apply t)
    exact ⟨state, h⟩

end StateChange

namespace Styler

/-- Styles again what the styler says after the inputs `change` of an element changed. -/
def follow (s : Styler) (t : StyledTree ε) (e : ε) (change : DependencyKinds) :
    Except RestyleError Styler :=
  match s.scopeOf (t.key e) change with
  | .nothing => .ok s
  | .subtree => (s.restyle t e).map Prod.fst
  | .parentSubtree => (s.restyle t ((t.parent? e).getD e)).map Prod.fst

/-- Follows changes one after the other. -/
def followAll [DecidableEq ε] (s : Styler) (t : StyledTree ε) :
    List (StateChange ε) → Except RestyleError Styler
  | [] => .ok s
  | c :: cs => do
    let s ← s.follow (c.apply t) c.element c.kinds
    s.followAll (c.apply t) cs

end Styler

/-! ## Scopes -/

theorem DependencyKind.mem_all (k : DependencyKind) : k ∈ all := by
  cases k <;> decide

theorem DependencyKinds.isEmpty_iff {s : DependencyKinds} :
    s.isEmpty = true ↔ ∀ k, s.has k = false := by
  constructor
  · intro h k
    obtain rfl : s = .none := by simpa [isEmpty] using h
    cases k <;> rfl
  · intro h
    obtain ⟨a, b, c, d, e, f⟩ := s
    obtain rfl : a = false := h .structural
    obtain rfl : b = false := h .backwardsStructural
    obtain rfl : c = false := h .hover
    obtain rfl : d = false := h .active
    obtain rfl : e = false := h .focus
    obtain rfl : f = false := h .otherState
    decide

namespace Styler

variable {s : Styler} {key : ElementKey} {flags : List StateFlag}

/-- Nothing has to be styled again only if no flag that changed was noted. -/
theorem not_noted_of_scopeOf {change : DependencyKinds} (h : s.scopeOf key change = .nothing)
    {k : DependencyKind} (hchange : change.has k = true) :
    (s.dependencies.kinds key).has k = false := by
  unfold scopeOf at h
  dsimp only at h
  split at h
  · next hempty =>
    have hk := DependencyKinds.isEmpty_iff.mp hempty k
    simpa [DependencyKind.mem_all, hchange] using hk
  · split at h <;> cases h

/-- Flags are read by selectors that reach siblings, so the parent is styled again. -/
theorem scopeOf_flags_ne_subtree :
    s.scopeOf key (.ofKinds (flags.map StateFlag.kind)) ≠ .subtree := by
  unfold scopeOf
  dsimp only
  split
  · nofun
  · next hnonempty =>
    rw [if_pos]
    · nofun
    obtain ⟨k, hk⟩ : ∃ k, (DependencyKinds.ofKinds (DependencyKind.all.filter fun k =>
        (s.dependencies.kinds key).has k &&
          (DependencyKinds.ofKinds (flags.map StateFlag.kind)).has k)).has k = true := by
      refine Classical.byContradiction fun hnone => hnonempty ?_
      exact DependencyKinds.isEmpty_iff.mpr fun k => Bool.eq_false_iff.mpr fun hk => hnone ⟨k, hk⟩
    have hflag : k ∈ flags.map StateFlag.kind := by
      rw [DependencyKinds.has_ofKinds, List.contains_iff_mem, List.mem_filter] at hk
      simpa using (Bool.and_eq_true_iff.mp hk.2).2
    obtain ⟨f, -, rfl⟩ := List.mem_map.mp hflag
    refine List.any_eq_true.mpr ⟨f.kind, DependencyKind.mem_all f.kind, ?_⟩
    rw [hk]
    cases f <;> rfl

end Styler

/-! ## What a change leaves -/

namespace PassInput

variable {i : PassInput ε} {root e : ε} {s : Styler} {state : ε → ElementState}

/-- An element stays settled if neither it nor an ancestor has read what changed. -/
theorem Settled.withState (ht : i.tree.Rooted root) (hmode : i.index.mode = .standards)
    (hunread : ∀ x ∈ e :: i.tree.ancestors e, ∀ r ∈ i.heard x, i.tree.toElementTree.Unread state r)
    (h : i.Settled s e) : (i.withTree (i.tree.withState state)).Settled s e :=
  h.withTree (hmode ▸ i.tree.agrees_withState state) ht.lawful.toLawful
    (ht.lawful.toLawful.withState state) trivial hunread

/-- Two stylers for which an element is settled store styles for it that are alike, whatever their
digests. -/
theorem Settled.exists_styles {s' : Styler} {digest : Feature → Digest} (h : i.Settled s e)
    (h' : Settled { i with digest := digest } s' e) :
    ∃ style style', s.styles[i.tree.key e]? = some style ∧
      s'.styles[i.tree.key e]? = some style' ∧ style.plainForm = style'.plainForm ∧
      (style.Numeric → (style == style') = true) := by
  obtain ⟨⟨style, hstored, hagrees⟩, -⟩ := h
  obtain ⟨⟨style', hstored', hagrees'⟩, -⟩ := h'
  have hplain := hagrees.plainForm_eq hagrees'
  exact ⟨style, style', hstored, hstored', hplain, fun h => h.beq_of_plainForm_eq hplain⟩

/-- Every element is settled, and the styler is at rest. -/
structure UpToDate (i : PassInput ε) (root : ε) (s : Styler) : Prop where
  resting : s.Resting i.settings i.metrics i.index i.digest
  settled : ∀ x ∈ (i.tree.branch root).elements, i.Settled s x

/-- What only some flags of `e` change is not seen by readings that are no readings of `e`. -/
theorem unread_of_not_reaches (hstate : ∀ x, x ≠ e → state x = i.tree.state x) {x : ε}
    (ht : i.tree.Lawful) (hx : ¬i.tree.Reaches x e) :
    ∀ r ∈ i.heard x, i.tree.toElementTree.Unread state r := by
  intro r hr f _
  have hne : r.1 ≠ e := fun heq => hx (heq ▸ RuleIndex.reaches_of_mem_heard ht.toLawful hr)
  rw [hstate r.1 hne]

/-- If nothing has to be styled again, then no reading that is noted sees the change. -/
theorem unread_of_scopeOf {flags : List StateFlag}
    (hstate : ∀ x, x ≠ e → state x = i.tree.state x)
    (hflags : ∀ f ∉ flags, (state e).has f = (i.tree.state e).has f)
    (hscope : s.scopeOf (i.tree.key e) (.ofKinds (flags.map StateFlag.kind)) = .nothing) {x : ε}
    (h : i.Settled s x) : ∀ r ∈ i.heard x, i.tree.toElementTree.Unread state r := by
  intro r hr f hf
  by_cases hre : r.1 = e
  · rw [hre]
    refine hflags f fun hmem => ?_
    have hchange : (DependencyKinds.ofKinds (flags.map StateFlag.kind)).has f.kind = true := by
      rw [DependencyKinds.has_ofKinds, List.contains_iff_mem]
      exact List.mem_map_of_mem hmem
    have hnoted := h.noted r hr f.kind hf
    rw [hre, Styler.not_noted_of_scopeOf hscope hchange] at hnoted
    cases hnoted
  · rw [hstate r.1 hre]

section Follow

variable [DecidableEq ε] {c : StateChange ε}

/-- The input after a change. -/
def after (i : PassInput ε) (c : StateChange ε) : PassInput ε :=
  i.withTree (c.apply i.tree)

theorem has_apply_of_not_mem (t : StyledTree ε) {f : StateFlag} (hf : f ∉ c.flags) :
    ((c.apply t).state c.element).has f = (t.state c.element).has f := by
  have hstate : (c.apply t).state c.element = (t.state c.element).flip c.flags := if_pos rfl
  rw [hstate, ElementState.has_flip, Bool.eq_false_iff.mpr (mt List.contains_iff_mem.mp hf)]
  exact Bool.bne_false _

theorem state_apply_of_ne (t : StyledTree ε) {x : ε} (hx : x ≠ c.element) :
    (c.apply t).state x = t.state x :=
  if_neg hx

/-- Outside the branch that is styled again, no element and no ancestor of one looks at the element
that changed. -/
theorem not_reaches_of_outside (ht : i.tree.Rooted root)
    (he : e ∈ (i.tree.branch root).elements) {x : ε} (hx : x ∈ (i.tree.branch root).elements)
    (hout : x ∉ (i.tree.branch ((i.tree.parent? e).getD e)).elements) {a : ε}
    (ha : a ∈ x :: i.tree.ancestors x) : ¬i.tree.Reaches a e := by
  intro hreaches
  obtain ⟨hmem, hxa⟩ := ht.mem_of_ancestor hx ha
  by_cases hroot : e = root
  · subst hroot
    rw [ElementTree.parent?, ht.ancestors_root] at hout
    exact hout hx
  · obtain ⟨p, -, c, hc, rfl⟩ := ht.exists_child he hroot
    obtain ⟨-, hup⟩ := ht.branch_child hc
    rw [ElementTree.parent?, hup] at hout
    have hne : c.element ≠ p := by
      intro heq
      have hself := ht.not_mem_ancestors_self c.element
      rw [hup, heq] at hself
      exact hself List.mem_cons_self
    have hap := (ht.mem_branch_of_reaches hmem hreaches (ht.child_mem hc) hne).1
    exact hout (ht.mem_trans hap hxa)

/-- Styling again what the styler says after a change leaves every element settled. -/
theorem UpToDate.follow (h : i.UpToDate root s) (ht : i.tree.Rooted root) (hfair : i.metrics.Fair)
    (hfits : ∀ x ∈ (i.tree.branch root).elements, (i.after c).naive.Fits x)
    (hmode : i.index.mode = .standards) (hc : c.element ∈ (i.tree.branch root).elements) :
    ∃ s', s.follow (c.apply i.tree) c.element c.kinds = .ok s' ∧ (i.after c).UpToDate root s' := by
  have hstate (x : ε) (hx : x ≠ c.element) : (c.apply i.tree).state x = i.tree.state x :=
    state_apply_of_ne i.tree hx
  have ht' : (i.after c).tree.Rooted root := ht.withState _
  cases hscope : s.scopeOf (i.tree.key c.element) c.kinds with
  | nothing =>
    refine ⟨s, ?_, h.resting, fun x hx => ?_⟩
    · rw [Styler.follow, show s.scopeOf ((c.apply i.tree).key c.element) c.kinds = _ from hscope]
    · -- What is stored stays right, since no reading of the element or an ancestor has changed.
      refine (h.settled x hx).withState ht hmode fun a ha => ?_
      exact unread_of_scopeOf hstate (fun f hf => has_apply_of_not_mem i.tree hf) hscope
        (h.settled a (ht.mem_of_ancestor hx ha).1)
  | subtree => exact absurd hscope Styler.scopeOf_flags_ne_subtree
  | parentSubtree =>
    have hmem : (i.tree.parent? c.element).getD c.element ∈ (i.tree.branch root).elements := by
      cases hp : i.tree.parent? c.element with
      | none => exact hc
      | some p => exact ht.mem_of_reaches hc (ElementTree.reaches_of_parent? hp)
    have houtside : ∀ x ∈ (i.tree.branch root).elements,
        x ∉ (i.tree.branch ((i.tree.parent? c.element).getD c.element)).elements →
        (i.after c).Settled s x := by
      intro x hx hout
      refine (h.settled x hx).withState ht hmode fun a ha => ?_
      exact unread_of_not_reaches hstate ht.lawful (not_reaches_of_outside ht hc hx hout ha)
    have hparent {q : ε}
        (hq : (i.after c).tree.parent? ((i.tree.parent? c.element).getD c.element) = some q) :
        q ∈ (i.tree.branch root).elements :=
      ht'.mem_of_reaches hmem (ElementTree.reaches_of_parent? hq)
    obtain ⟨s', r, hrun, hsettled⟩ := exists_restyle_branch ht' hfair hfits h.resting hmem
      (fun hx => hx) hparent (fun hx => houtside _ hx)
    refine ⟨s', ?_, h.resting.restyle hrun, fun x hx => hsettled x (.inl hx)⟩
    rw [Styler.follow, show s.scopeOf ((c.apply i.tree).key c.element) c.kinds = _ from hscope]
    exact congrArg (Except.map Prod.fst) hrun

end Follow

end PassInput

/-! ## Runs -/

section Runs

variable [DecidableEq ε] {settings : Settings} {set : SheetSet} {m : Medium} {root : ε}
  {digest : Feature → Digest}

/-- Following any changes of a document leaves every element settled. -/
theorem PassInput.UpToDate.followAll {metrics : FontMetrics} (hfair : metrics.Fair)
    (hset : set.Fitting m) (hmode : set.mode = .standards) (cs : List (StateChange ε))
    {t : StyledTree ε} (ht : t.Rooted root) (hfits : t.Fitting root)
    (hcs : ∀ c ∈ cs, c.element ∈ (t.branch root).elements) {s : Styler}
    (h : UpToDate ⟨settings, metrics, .build set m, digest, t⟩ root s) :
    ∃ s', s.followAll t cs = .ok s' ∧
      UpToDate ⟨settings, metrics, .build set m, digest, StateChange.applyAll cs t⟩ root s' := by
  induction cs generalizing t s with
  | nil => exact ⟨s, rfl, h⟩
  | cons c cs ih =>
    have hfits' : (c.apply t).Fitting root := hfits
    obtain ⟨s', hrun, h'⟩ := h.follow ht hfair (fun x hx => fits_naive_build hset hfits' hx)
      (RuleIndex.mode_build.trans hmode) (hcs c List.mem_cons_self)
    obtain ⟨s'', hrun', h''⟩ := ih (ht.withState _) hfits'
      (fun c' hc' => hcs c' (List.mem_cons_of_mem c hc')) h'
    exact ⟨s'', (bind_of_eq_ok hrun).trans hrun', h''⟩

/-- After a pass over the root and any changes of state, each followed by as much as the styler
says, every stored style is the one that a new styler, whatever its digests, stores in a pass over
the whole document, but for the signs of zeros and for what groups are shared. The two are equal
unless a number in them is none. -/
theorem Styler.Reachable.followAll_agrees {s : Styler}
    (hs : Reachable settings .approximate set m s) (hset : set.Fitting m)
    (hmode : set.mode = .standards) {t : StyledTree ε} (ht : t.Rooted root) (hfits : t.Fitting root)
    (cs : List (StateChange ε)) (hcs : ∀ c ∈ cs, c.element ∈ (t.branch root).elements)
    (digest : Feature → Digest) :
    let t' := StateChange.applyAll cs t
    ∃ first r s' fresh r', s.restyle t root = .ok (first, r) ∧ first.followAll t cs = .ok s' ∧
      (Styler.create settings .approximate set m digest).restyle t' root = .ok (fresh, r') ∧
      ∀ e ∈ (t'.branch root).elements, ∃ style style', s'.styles[t'.key e]? = some style ∧
        fresh.styles[t'.key e]? = some style' ∧ style.plainForm = style'.plainForm ∧
        (style.Numeric → (style == style') = true) := by
  intro t'
  obtain ⟨state, hstate⟩ := StateChange.exists_applyAll_eq cs t
  have hstate : t' = t.withState state := hstate
  have ht' : t'.Rooted root := by
    rw [hstate]
    exact ht.withState state
  have hfits' : t'.Fitting root := by
    rw [hstate]
    exact hfits
  have hfair : FontMetrics.approximate.Fair := FontMetrics.fair_approximate
  let i : PassInput ε := ⟨settings, .approximate, .build set m, s.digest, t⟩
  let i' : PassInput ε := ⟨settings, .approximate, .build set m, digest, t'⟩
  obtain ⟨first, r, hfirst, hsettled⟩ := PassInput.exists_restyle_root (i := i) ht hfair
    (fun x hx => PassInput.fits_naive_build hset hfits hx) hs.resting
  obtain ⟨s', hfollow, -, hsettled'⟩ := PassInput.UpToDate.followAll hfair hset hmode cs ht hfits
    hcs ⟨hs.resting.restyle hfirst, hsettled⟩
  obtain ⟨fresh, r', hfresh, hsettled''⟩ := PassInput.exists_restyle_root (i := i') ht' hfair
    (fun x hx => PassInput.fits_naive_build hset hfits' hx) (Reachable.create set m digest).resting
  exact ⟨first, r, s', fresh, r', hfirst, hfollow, hfresh, fun e he =>
    (hsettled' e he).exists_styles (hsettled'' e he)⟩

end Runs

/-- In a family, the pointer enters the elder child, the parent takes focus, and the pointer goes
on. -/
theorem Styler.Reachable.followAll_agrees_family :
    let t := Relative.tree fun _ => .none
    let cs : List (StateChange Relative) :=
      [⟨.elder, [.hover, .link]⟩, ⟨.parent, [.focus]⟩, ⟨.elder, [.hover]⟩, ⟨.younger, [.hover]⟩]
    let s := Styler.create .default .approximate Relative.sheets .screen
    let t' := StateChange.applyAll cs t
    ∃ first r s' fresh r', s.restyle t .parent = .ok (first, r) ∧ first.followAll t cs = .ok s' ∧
      s.restyle t' .parent = .ok (fresh, r') ∧
      ∀ e ∈ (t'.branch .parent).elements, ∃ style style', s'.styles[t'.key e]? = some style ∧
        fresh.styles[t'.key e]? = some style' ∧ style.plainForm = style'.plainForm ∧
        (style.Numeric → (style == style') = true) := by
  intro t cs s t'
  have hcs : ∀ c ∈ cs, c.element ∈ (t.branch .parent).elements := by
    simp [cs, t, Relative.tree, Relative.branch, Branch.elements, Branch.elementsOfAll]
  exact (Reachable.create Relative.sheets .screen _).followAll_agrees Relative.fitting_sheets rfl
    (Relative.rooted_tree _) (Relative.fitting_tree _) cs hcs hash

end StyleEngine
