import StyleEngine.Proofs.Cascade.Signature
import StyleEngine.Proofs.Matching.Session
import StyleEngine.Proofs.Pass.Descent
import StyleEngine.Proofs.Pass.Walk

/-!
# What a visit comes to

The visit of an element computes its style like the naive step from the style that the pass brought
along from the parent. What matching remembers does not matter: in a pass over a tree with keys that
tell elements apart, it remembers true answers only.

## Main definitions

* `PassInput.Underway`: a styler in a pass, with a memory that answers truly.
* `Visit.Comes`: what is left by the visit of an element.

## Main statements

* `PassInput.Underway.visit`: a visit fails with the error of the naive step, or comes to its style.
-/

namespace StyleEngine

variable {ε : Type}

namespace PassInput

/-- Matching with the rules of a pass, at any element of its tree. -/
def scope (i : PassInput ε) : MatchScope ε :=
  i.index.scope i.tree.toElementTree (fun _ => True) fun _ _ => trivial

/-- A styler in a pass: it is set up for the pass, and remembers true answers only. -/
structure Underway (i : PassInput ε) (s : Styler) : Prop
    extends s.SetUp i.settings i.metrics i.index i.digest where
  sound : i.scope.Sound ⟨some s.cache, none⟩

variable {i : PassInput ε} {s : Styler} {e : ε}

/-- Nothing is remembered at the start of a pass. -/
theorem underway_beginPass (hkeys : i.tree.KeysDistinct)
    (hs : s.Resting i.settings i.metrics i.index i.digest) (e : ε) :
    i.Underway (s.beginPass i.tree e) where
  toSetUp := { hs.toSetUp with }
  sound := hs.dated.sound_beginPass hkeys none

/-- Collecting finds what the tree alone says. -/
theorem Underway.collect (ht : i.tree.Lawful) (h : i.Underway s) (hfilter : s.Filtered i.tree e) :
    (s.collect i.tree e).1 = i.index.gather i.tree e ∧ i.Underway (s.collect i.tree e).2 := by
  have htruthful : AncestorFilter.Truthful i.digest i.tree.toElementTree (some s.filter) e := by
    intro f hf
    obtain rfl := Option.some.inj hf
    exact ⟨ht.toLawful, h.digest ▸ hfilter⟩
  obtain ⟨hanswer, hsound, -, hext⟩ :=
    RuleIndex.serves_collect (fun _ _ => trivial) htruthful trivial ⟨some s.cache, none⟩ h.sound
  -- The styler takes notes as well, which changes neither the answer nor the cache.
  have hlasting : MatchCache.Lasting fun _ => True :=
    ⟨fun _ _ _ _ => trivial, fun _ _ _ _ _ => trivial⟩
  obtain ⟨hsame, hcache, -⟩ := RuleIndex.unread_collect hlasting i.digest (some s.filter) i.index
    i.tree e    ⟨some s.cache, some s.dependencies⟩ ⟨some s.cache, none⟩ rfl fun _ _ => trivial
  rw [Styler.collect_eq, h.index, h.digest]
  generalize (i.index.collect i.digest (some s.filter) i.tree e).run
    ⟨some s.cache, some s.dependencies⟩ = noting at hsame hcache ⊢
  generalize (i.index.collect i.digest (some s.filter) i.tree e).run
    ⟨some s.cache, none⟩ = result at *
  obtain ⟨collected, cache, dependencies⟩ := result
  obtain ⟨cache, rfl⟩ := Option.isSome_iff_exists.mp (hext.cache.trans rfl)
  obtain rfl : dependencies = none := by simpa using hext.dependencies
  refine ⟨hsame.trans hanswer, { h.toSetUp with index := rfl, digest := rfl }, ?_⟩
  dsimp only
  rwa [hcache]

/-- The naive pass puts an element in a context like the one that the styler does. -/
theorem Underway.alike_contextOf (h : i.Underway s) (hfair : i.metrics.Fair) (e : ε)
    (parent : Option ComputedStyle) :
    (s.contextOf (i.tree.isRoot e) parent).Alike
      (i.naive.contextOf e parent (i.naive.rootFontSizeAt e s.rootFontSize)) where
  initial := congrArg _ h.initial
  settings := .of_eq h.settings
  metrics := h.metrics
  fair := hfair
  parent := rfl
  pseudo := rfl
  isRoot := rfl
  rootFontSize := by
    simp only [Styler.contextOf, NaivePass.contextOf, NaivePass.rootFontSizeAt, h.settings]
    rfl

end PassInput

/-! ## Visits -/

/-- What a pass brings along to an element to compute its style from. -/
def Station.ground (a : Station ε) : NaivePass.Ground :=
  ⟨a.parent, a.state.styler.rootFontSize⟩

/-- The element took over groups of the sibling that is remembered under an equal signature. -/
def Visit.Shares (i : PassInput ε) (v : Visit ε) : Prop :=
  ∃ (own similar : ComputedStyle) (key : ElementKey) (history : SiblingHistory),
    v.history.find? (i.index.signature i.tree v.element) = some key ∧
    v.state.styler.styles[key]? = some similar ∧ v.out = some (own.compactWith similar, history)

/-- What the visit of an element leaves, if the naive step comes to `ground`. -/
structure Visit.Comes (i : PassInput ε) (v : Visit ε) (ground : NaivePass.Ground) : Prop where
  underway : i.Underway v.after.styler
  style : ∀ {style history}, v.out = some (style, history) →
    NaivePass.Ground.plainForm ⟨some style, v.after.styler.rootFontSize⟩ = ground.plainForm
  rootFontSize : i.tree.isRoot v.element = false →
    v.after.styler.rootFontSize = v.state.styler.rootFontSize
  /-- Of the siblings that are remembered, only the element is new. -/
  remembered : ∀ {style history}, v.out = some (style, history) → ∀ entry ∈ history.entries,
    entry = (i.tree.key v.element, i.index.signature i.tree v.element) ∨
      entry ∈ v.history.entries
  shared : v.after.report.shared = v.state.report.shared ∨
    v.after.report.shared = v.state.report.shared + 1 ∧ v.Shares i

/-- A visit fails with the error of the naive step, or leaves what the step says. -/
theorem PassInput.Underway.visit {i : PassInput ε} (ht : i.tree.Lawful) (hfair : i.metrics.Fair)
    {a : Station ε} (h : i.Underway a.state.styler)
    (hfilter : a.state.styler.Filtered i.tree a.element) :
    (∃ error, a.style i.tree = .error error ∧ i.naive.step a.element a.ground = .error error) ∨
    ∃ ground out after, a.style i.tree = .ok (out, after) ∧
      i.naive.step a.element a.ground = .ok ground ∧ Visit.Comes i ⟨a, out, after⟩ ground := by
  obtain ⟨e, parent, history, s, r⟩ := a
  obtain ⟨hcollected, hunderway⟩ := h.collect ht hfilter
  -- `s'` is the styler after collecting; the steps that follow run on it.
  obtain ⟨s', hs⟩ : ∃ s', s' = (s.collect i.tree e).2 := ⟨_, rfl⟩
  have hpair : s.collect i.tree e = (i.index.gather i.tree e, s') := Prod.ext hcollected hs.symm
  have hsize : s'.rootFontSize = s.rootFontSize := by rw [hs]; rfl
  have hstyles : s'.styles = s.styles := by rw [hs]; rfl
  rw [← hs] at hunderway
  have hcontext := hunderway.alike_contextOf hfair e parent
  rw [hsize] at hcontext
  have hentries (target : Option PseudoElement) :
      (i.index.gather i.tree e).entriesOf target = i.naive.entries e target := rfl
  dsimp only [Station.style, Station.ground, NaivePass.step]
  rw [Styler.run_styleElement, hpair]
  dsimp only
  rcases Styler.mirrors_computeStyle hentries hcontext s' r with
    ⟨error, hnaive, hrun⟩ | ⟨full, own, stamp, hnaive, hrun, hplain⟩
  · refine .inl ⟨error, ?_, ?_⟩
    · rw [StateT.run_bind, hrun]
      rfl
    · rw [hnaive]
      rfl
  rw [PassM.run_bind_of_ok hrun, hnaive]
  by_cases he : i.tree.isConnected e = true
  · obtain ⟨style, history', differences, r', hfinish, hcompacted⟩ :=
      Styler.exists_finishElement he parent history (i.index.gather i.tree e).matched
        s'.settings.sharing own { s' with stamp := stamp } r
    have hstyle : style.plainForm = full.plainForm := hcompacted.plain.trans hplain
    refine .inr ⟨_, _, _, hfinish, rfl, ?_⟩
    exact
      { underway := ⟨{ hunderway.toSetUp with }, hunderway.sound⟩
        style := by
          rintro _ _ ⟨⟩
          dsimp only
          rw [hsize]
          exact i.naive.plainForm_below e s.rootFontSize hstyle
        rootFontSize := fun hroot => (if_neg (by simp [hroot])).trans hsize
        remembered := by
          rintro _ _ ⟨⟩
          exact hcompacted.remembered
        shared := by
          refine hcompacted.shared.imp_right ?_
          rintro ⟨hshared, key, similar, hfound, hsimilar, rfl⟩
          exact ⟨hshared, own, similar, key, history', hfound, hstyles ▸ hsimilar, rfl⟩ }
  · have hcut : i.tree.isConnected e = false := by simpa using he
    refine .inr ⟨_, _, _, Styler.run_finishElement_of_cut hcut .., rfl, ?_⟩
    exact
      { underway := ⟨{ hunderway.toSetUp with }, hunderway.sound⟩
        style := by simp
        rootFontSize := fun _ => hsize
        remembered := by simp
        shared := .inl rfl }

end StyleEngine
