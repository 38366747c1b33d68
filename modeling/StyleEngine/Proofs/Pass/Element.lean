import StyleEngine.Proofs.Matching.Congruence
import StyleEngine.Proofs.Pass.Naive

/-!
# One element of a pass

A pass keeps its memory sound for the region that it has gone through, and the styles of the
elements that are done agree with the naive ones. Styling one more element of the region keeps this,
and adds the element to those that are done.

## Main definitions

* `Styler.Filtered`, `Styler.FilteredBelow`: the filter holds the ancestors of an element, and the
  element as well.
* `PassInput`: what a pass works on.
* `PassInput.Settled`: an element with the right style, and with its readings noted.
* `PassInput.Midway`: the invariant of a pass.

## Main statements

* `PassInput.exists_styleElement`: what styling one element does.
-/

namespace StyleEngine

variable {ε : Type}

/-- A styler with the given settings, metrics, rules, and digests. -/
structure Styler.SetUp (settings : Settings) (metrics : FontMetrics) (index : RuleIndex)
    (digest : Feature → Digest) (s : Styler) : Prop where
  initial : s.initial = .initial 0 settings.defaultFontSize
  settings : s.settings = settings
  metrics : s.metrics = metrics
  index : s.index = index
  digest : s.digest = digest

/-- Collecting changes the memory only. -/
theorem Styler.collect_eq (s : Styler) (t : StyledTree ε) (e : ε) :
    s.collect t e =
      let result := (s.index.collect s.digest (some s.filter) t e).run
        ⟨some s.cache, some s.dependencies⟩
      (result.1,
        { s with
          cache := result.2.cache.getD s.cache
          dependencies := result.2.dependencies.getD s.dependencies }) :=
  rfl

/-! ## The filter -/

namespace Styler

/-- The filter holds the ancestors of an element. -/
def Filtered (s : Styler) (t : StyledTree ε) (e : ε) : Prop :=
  s.filter.Counts (AncestorFilter.ancestorKeys s.digest t.toElementTree e)

/-- The filter holds an element and its ancestors. -/
def FilteredBelow (s : Styler) (t : StyledTree ε) (e : ε) : Prop :=
  s.filter.Counts (AncestorFilter.keys s.digest t.toElementTree e ++
    AncestorFilter.ancestorKeys s.digest t.toElementTree e)

variable {s : Styler} {t : StyledTree ε} {e : ε}

theorem filtered_beginPass (s : Styler) (t : StyledTree ε) (e : ε) :
    (s.beginPass t e).Filtered t e :=
  AncestorFilter.counts_ofAncestors s.digest t.toElementTree e

theorem Filtered.push (h : s.Filtered t e) :
    { s with filter := s.filter.push s.digest t.toElementTree e }.FilteredBelow t e :=
  AncestorFilter.Counts.push h s.digest e

theorem FilteredBelow.pop (h : s.FilteredBelow t e) :
    { s with filter := s.filter.pop s.digest t.toElementTree e }.Filtered t e :=
  AncestorFilter.Counts.pop h

/-- What a child is filtered with is what stands in the filter below its parent. -/
theorem filtered_child_iff (ht : t.Lawful) {c : Branch ε} (hc : c ∈ (t.branch e).children) :
    s.Filtered t c.element ↔ s.FilteredBelow t e := by
  rw [Filtered, AncestorFilter.ancestorKeys, (ht.branch_child hc).2, List.flatMap_cons]
  rfl

end Styler

/-! ## What a pass works on -/

/-- What a pass works on. -/
structure PassInput (ε : Type) where
  settings : Settings
  metrics : FontMetrics
  index : RuleIndex
  digest : Feature → Digest
  tree : StyledTree ε

namespace PassInput

/-- The pass without any memory, for the declarations that the tree alone says. -/
def naive (i : PassInput ε) : NaivePass ε where
  settings := i.settings
  metrics := i.metrics
  tree := i.tree
  entries e target := (i.index.gather i.tree e).entriesOf target

/-- What is noted for an element. -/
def heard (i : PassInput ε) (e : ε) : Readings ε :=
  i.index.heard i.digest (some (.ofAncestors i.digest i.tree.toElementTree e))
    i.tree.toElementTree e

/-- An element whose stored style agrees with the naive one, and whose readings are noted. -/
structure Settled (i : PassInput ε) (s : Styler) (e : ε) : Prop where
  style : ∃ style, s.styles[i.tree.key e]? = some style ∧ i.naive.Agrees e style s.rootFontSize
  noted : s.dependencies.Has i.tree.toElementTree (i.heard e)

/-- A styler in the midst of a pass: its memory is sound for a region, and the elements of the
region that are `done` are settled. -/
structure Midway {root : ε} (i : PassInput ε) (region : i.tree.Region root) (done : ε → Prop)
    (s : Styler) : Prop extends s.SetUp i.settings i.metrics i.index i.digest where
  sound : (region.scope i.index).Sound ⟨some s.cache, some s.dependencies⟩
  done_mem : ∀ {x}, done x → region.mem x
  settled : ∀ {x}, done x → i.Settled s x

/-- What the style of an element is computed from: nothing at the top, where no element is done
yet, and else the style of the parent. -/
def Ready (i : PassInput ε) (done : ε → Prop) (rootFontSize : Float32) (e : ε) :
    Option ComputedStyle → Prop
  | none => i.tree.ancestors e = [] ∧ ∀ x, ¬done x
  | some style => ∃ p, i.tree.ancestors e = p :: i.tree.ancestors p ∧
      i.naive.Agrees p style rootFontSize

variable {i : PassInput ε} {root e : ε} {region : i.tree.Region root} {done : ε → Prop}
  {s : Styler}

/-- The invariant does not hang on the filter, on stamps, or on differences. -/
theorem Midway.with (h : i.Midway region done s) (filter : AncestorFilter Digest) (stamp : Stamp)
    (differences : Std.HashMap ElementKey Difference) :
    i.Midway region done
      { s with filter := filter, stamp := stamp, differences := differences } where
  toSetUp := { h.toSetUp with }
  sound := h.sound
  done_mem := h.done_mem
  settled hx := ⟨(h.settled hx).style, (h.settled hx).noted⟩

/-! ## Other trees -/

/-- The input with another tree. -/
def withTree (i : PassInput ε) (t : StyledTree ε) : PassInput ε :=
  { i with tree := t }

/-- An element stays settled on a tree that agrees, if what was noted for it and for its ancestors
is blind. -/
theorem Settled.withTree {t' : StyledTree ε} {mem : ε → Prop}
    {blind : ε × List DependencyKind → Prop} (hagrees : i.tree.Agrees t' i.index.mode mem blind)
    (ht : i.tree.toElementTree.Lawful) (ht' : t'.toElementTree.Lawful) (hmem : mem e)
    (hblind : ∀ x ∈ e :: i.tree.ancestors e, ∀ r ∈ i.heard x, blind r) (h : i.Settled s e) :
    (i.withTree t').Settled s e := by
  have hup : ∀ x ∈ e :: i.tree.ancestors e, mem x := by
    intro x hx
    rcases List.mem_cons.mp hx with rfl | hx
    · exact hmem
    · exact hagrees.ancestor hmem hx
  have hsame : ∀ x ∈ e :: i.tree.ancestors e,
      i.index.gather t' x = i.index.gather i.tree x ∧ (i.withTree t').heard x = i.heard x := by
    intro x hx
    have htruthful : AncestorFilter.Truthful i.digest i.tree.toElementTree
        (some (.ofAncestors i.digest i.tree.toElementTree x)) x := by
      intro f hf
      obtain rfl := Option.some.inj hf
      exact ⟨ht, AncestorFilter.counts_ofAncestors i.digest _ _⟩
    rw [heard, PassInput.withTree]
    dsimp only
    rw [hagrees.ofAncestors (hup x hx)]
    exact hagrees.collect ht' (hup x hx) htruthful (hblind x hx)
  obtain ⟨⟨style, hstored, style', rootFontSize, hnaive, hplain⟩, hnoted⟩ := h
  have hancestors : t'.ancestors e = i.tree.ancestors e := hagrees.ancestors hmem
  have halong : (i.withTree t').naive.styleAlong e (t'.ancestors e) =
      i.naive.styleAlong e (i.tree.ancestors e) := by
    have hsettings : (i.withTree t').naive.settings = i.naive.settings := rfl
    have hmetrics : (i.withTree t').naive.metrics = i.naive.metrics := rfl
    rw [hancestors]
    refine NaivePass.styleAlong_congr hsettings hmetrics fun x hx => ⟨?_, ?_⟩
    · exact hagrees.isRoot (hup x hx)
    · exact funext fun target => congrArg (·.entriesOf target) (hsame x hx).1
  have hkey : (i.withTree t').tree.key = i.tree.key := hagrees.key
  refine ⟨⟨style, ?_, style', rootFontSize, halong.trans hnaive, hplain⟩, ?_⟩
  · rw [hkey]
    exact hstored
  · intro r hr kind hkind
    rw [hkey]
    rw [(hsame e List.mem_cons_self).2] at hr
    exact hnoted r hr kind hkind

/-! ## Collecting -/

/-- Collecting for an element of the region finds what the tree alone says, and notes it. -/
theorem Midway.collect (ht : i.tree.Lawful) (h : i.Midway region done s) (he : region.mem e)
    (hfilter : s.Filtered i.tree e) :
    (s.collect i.tree e).1 = i.index.gather i.tree e ∧
      i.Midway region done (s.collect i.tree e).2 ∧
      (s.collect i.tree e).2.dependencies.Has i.tree.toElementTree (i.heard e) := by
  have htruthful : AncestorFilter.Truthful i.digest i.tree.toElementTree (some s.filter) e := by
    intro f hf
    obtain rfl := Option.some.inj hf
    exact ⟨ht.toLawful, h.digest ▸ hfilter⟩
  have hheard : i.heard e = i.index.heard i.digest (some s.filter) i.tree.toElementTree e :=
    RuleIndex.heard_congr_counts (AncestorFilter.counts_ofAncestors i.digest _ _)
      (h.digest ▸ hfilter) i.digest _ _ _
  obtain ⟨hanswer, hsound, hnoted, hext⟩ :=
    StyledTree.Region.serves_collect htruthful he _ h.sound
  rw [Styler.collect_eq, h.index, h.digest]
  generalize (i.index.collect i.digest (some s.filter) i.tree e).run _ = result at *
  obtain ⟨collected, cache, dependencies⟩ := result
  obtain ⟨cache, rfl⟩ := Option.isSome_iff_exists.mp (hext.cache.trans rfl)
  obtain ⟨dependencies, rfl⟩ := Option.isSome_iff_exists.mp (hext.dependencies.trans rfl)
  -- Notes are only added, so elements that are done keep theirs.
  have hkept {x : ε} (hx : done x) : dependencies.Has i.tree.toElementTree (i.heard x) := by
    have hold : MatchMemory.Noted i.tree.toElementTree ⟨some s.cache, some s.dependencies⟩
        (i.heard x) := by
      rintro table ⟨⟩
      exact (h.settled hx).noted
    exact hext.noted hold dependencies rfl
  refine ⟨hanswer, ?_, hheard ▸ hnoted dependencies rfl⟩
  exact
    { toSetUp := { h.toSetUp with index := rfl, digest := rfl }
      sound := hsound
      done_mem := h.done_mem
      settled := fun hx => ⟨(h.settled hx).style, hkept hx⟩ }

end PassInput

/-! ## Computing -/

theorem PassM.run_styler (p : PassState) : PassM.styler.run p = .ok (p.styler, p) :=
  rfl

theorem PassM.run_modifyStyler (f : Styler → Styler) (p : PassState) :
    (modifyStyler f).run p = .ok ((), ⟨f p.styler, p.report⟩) :=
  rfl

/-- A step that comes to an answer is followed by what goes on from there. -/
theorem PassM.run_bind_of_ok {α β : Type} {x : PassM α} {f : α → PassM β} {p p' : PassState} {a : α}
    (h : x.run p = .ok (a, p')) : (x >>= f).run p = (f a).run p' := by
  rw [StateT.run_bind, h]
  rfl

/-- The same, for a step that has two ways. -/
theorem PassM.run_ite_bind {α β : Type} {b : Bool} {x y : PassM α} {f : α → PassM β}
    {p p' : PassState} {a : α} (h : (if b then x else y).run p = .ok (a, p')) :
    (if b then x >>= f else y >>= f).run p = (f a).run p' := by
  cases b <;> exact run_bind_of_ok h

/-- Two steps that come to an answer do so one after the other. -/
theorem PassM.exists_of_run_bind {α β : Type} {x : PassM α} {f : α → PassM β} {p p'' : PassState}
    {b : β} (h : (x >>= f).run p = .ok (b, p'')) :
    ∃ a p', x.run p = .ok (a, p') ∧ (f a).run p' = .ok (b, p'') := by
  rw [StateT.run_bind] at h
  obtain ⟨⟨a, p'⟩, hx, hf⟩ := exists_of_bind_eq_ok h
  exact ⟨a, p', hx, hf⟩

theorem PassM.run_lift_bind {α β : Type} {x : Except StyleError α} {f : α → PassM β} {a : α}
    {p : PassState} (h : x = .ok a) : ((liftM x : PassM α) >>= f).run p = (f a).run p := by
  rw [h]
  rfl

theorem PassM.run_pure_eq_ok_iff {α : Type} {a b : α} {p p' : PassState} :
    (pure a : PassM α).run p = .ok (b, p') ↔ b = a ∧ p' = p := by
  constructor
  · rintro ⟨⟩
    exact ⟨rfl, rfl⟩
  · rintro ⟨rfl, rfl⟩
    rfl

/-- A step that only computes an answer changes nothing. -/
theorem PassM.run_lift_eq_ok_iff {α : Type} {x : Except StyleError α} {a : α} {p p' : PassState} :
    (liftM x : PassM α).run p = .ok (a, p') ↔ x = .ok a ∧ p' = p := by
  cases x with
  | error error => exact ⟨nofun, fun h => nomatch h.1⟩
  | ok b =>
    refine run_pure_eq_ok_iff.trans (and_congr_left fun _ => ?_)
    rw [Except.ok.injEq, eq_comm]

/-- A step that computes a style as `y` says: it stops with the error of `y`, or else comes to a
style of the same plain form and has changed nothing but the stamp. -/
def PassM.Mirrors (x : PassM ComputedStyle) (y : Except StyleError ComputedStyle) : Prop :=
  ∀ s r, (∃ error, y = .error error ∧ x.run ⟨s, r⟩ = .error error) ∨
    ∃ style' style stamp, y = .ok style' ∧
      x.run ⟨s, r⟩ = .ok (style, ⟨{ s with stamp := stamp }, r⟩) ∧
      style.plainForm = style'.plainForm

namespace PassM.Mirrors

theorem bind {x : PassM ComputedStyle} {y : Except StyleError ComputedStyle}
    {f : ComputedStyle → PassM ComputedStyle}
    {g : ComputedStyle → Except StyleError ComputedStyle} (hx : x.Mirrors y)
    (hf : ∀ {style style'}, style.plainForm = style'.plainForm → (f style).Mirrors (g style')) :
    (x >>= f).Mirrors (y >>= g) := by
  intro s r
  rcases hx s r with ⟨error, rfl, hrun⟩ | ⟨style', style, stamp, rfl, hrun, hplain⟩
  · refine .inl ⟨error, rfl, ?_⟩
    rw [StateT.run_bind, hrun]
    rfl
  · rw [run_bind_of_ok hrun]
    exact hf hplain { s with stamp := stamp } r

theorem of_map_eq {x y : Except StyleError ComputedStyle}
    (h : x.map ComputedStyle.plainForm = y.map ComputedStyle.plainForm) :
    (liftM x : PassM ComputedStyle).Mirrors y := by
  intro s r
  cases x <;> cases y
  · obtain rfl := Except.error.inj h
    exact .inl ⟨_, rfl, rfl⟩
  · cases h
  · cases h
  · exact .inr ⟨_, _, s.stamp, rfl, rfl, Except.ok.inj h⟩

/-- Where the naive computation comes to a style, so does the step. -/
theorem exists_run {x : PassM ComputedStyle} {y : Except StyleError ComputedStyle}
    (h : x.Mirrors y) {style' : ComputedStyle} (hy : y = .ok style') (s : Styler) (r : Report) :
    ∃ style stamp, x.run ⟨s, r⟩ = .ok (style, ⟨{ s with stamp := stamp }, r⟩) ∧
      style.plainForm = style'.plainForm := by
  subst hy
  rcases h s r with ⟨error, ⟨⟩, -⟩ | ⟨_, style, stamp, ⟨⟩, hrun, hplain⟩
  exact ⟨style, stamp, hrun, hplain⟩

end PassM.Mirrors

namespace Styler

/-- A style that comes about has taken a stamp, and nothing else is changed. -/
theorem run_applyFresh_eq_ok_iff {c : StyleContext} {es : List Entry} {style : ComputedStyle}
    {p p' : PassState} : (applyFresh c es).run p = .ok (style, p') ↔
      c.apply p.styler.stamp (es.map Entry.declaration) = .ok style ∧
        p' = ⟨{ p.styler with stamp := p.styler.stamp + 1 }, p.report⟩ :=
  PassM.run_lift_eq_ok_iff

/-- In alike contexts, the same declarations come to styles of one plain form. -/
theorem mirrors_applyFresh {c c' : StyleContext} (hc : c.Alike c') (es : List Entry) :
    (applyFresh c es).Mirrors (c'.apply 0 (es.map Entry.declaration)) := by
  intro s r
  exact PassM.Mirrors.of_map_eq (StyleContext.plainForm_apply hc s.stamp 0 rfl)
    { s with stamp := s.stamp + 1 } r

variable {n : NaivePass ε} {e : ε} {collected : Collected}

theorem mirrors_attachPseudos
    (hcollected : ∀ target, collected.entriesOf target = n.entries e target)
    {c c' : StyleContext} (hc : c.Alike c') (ps : List PseudoElement) {style style' : ComputedStyle}
    (hs : style.plainForm = style'.plainForm) :
    (attachPseudos c collected ps style).Mirrors (n.attachPseudos c' e ps style') := by
  induction ps generalizing style style' with
  | nil => exact fun s r => .inr ⟨style', style, s.stamp, rfl, rfl, hs⟩
  | cons q ps ih =>
    have hcontext : StyleContext.Alike
        { c with parent := some style, pseudo := some q, isRoot := false }
        { c' with parent := some style', pseudo := some q, isRoot := false } :=
      { hc with parent := congrArg some hs, pseudo := rfl, isRoot := rfl }
    have hentries : collected.forPseudo q = n.entries e (some q) := hcollected (some q)
    rw [attachPseudos, NaivePass.attachPseudos, hentries]
    refine (mirrors_applyFresh hcontext _).bind fun {pseudo pseudo'} hplain => ?_
    have hexists : pseudoExists q pseudo = pseudoExists q pseudo' := by
      unfold pseudoExists
      rw [ComputedStyle.content_eq_of_plainForm hplain]
    rw [hexists]
    split
    · exact (PassM.Mirrors.of_map_eq (ComputedStyle.plainForm_attach hs hplain)).bind ih
    · exact ih hs

/-- Computes the style of an element and of its pseudo-elements from what was collected. -/
def computeStyle (c : StyleContext) (collected : Collected) : PassM ComputedStyle := do
  let style ← applyFresh c collected.entries
  attachPseudos c collected collected.pseudoElements style

/-- The style of an element is computed like the naive one. -/
theorem mirrors_computeStyle
    (hcollected : ∀ target, collected.entriesOf target = n.entries e target) {c : StyleContext}
    {parent : Option ComputedStyle} {rootFontSize : Float32}
    (hc : c.Alike (n.contextOf e parent rootFontSize)) :
    (computeStyle c collected).Mirrors (n.styleUnder e parent rootFontSize) := by
  have hown : collected.entries = n.entries e none := hcollected none
  have hpseudos : collected.pseudoElements = n.pseudoElements e := by
    refine List.filter_congr fun q _ => ?_
    have hq : collected.forPseudo q = n.entries e (some q) := hcollected (some q)
    rw [hq]
  rw [computeStyle, hown, hpseudos]
  exact (mirrors_applyFresh hc _).bind fun hplain =>
    mirrors_attachPseudos hcollected hc (n.pseudoElements e) hplain

/-! ## Storing -/

/-- Stores the style that was computed for an element, or forgets the element if it is cut off. -/
def finishElement (t : StyledTree ε) (parent : Option ComputedStyle) (history : SiblingHistory)
    (e : ε) (matched : List SelectorId) (sharing : Bool) (style : ComputedStyle) :
    PassM (Option (ComputedStyle × SiblingHistory)) := do
  if t.isConnected e then
    let (style, history) ←
      if sharing then compact (t.key e) (.ofElement t e matched) parent history style
      else pure (style, history)
    commit (t.key e) (t.isRoot e) style
    pure (some (style, history))
  else
    PassM.modifyStyler (·.forget (t.key e))
    PassM.modifyReport fun r => { r with discarded := r.discarded ++ [t.key e] }
    pure none

/-- An element is styled in three steps. -/
theorem run_styleElement (t : StyledTree ε) (parent : Option ComputedStyle)
    (history : SiblingHistory) (e : ε) (s : Styler) (r : Report) :
    (styleElement t parent history e).run ⟨s, r⟩ =
      let (collected, s) := s.collect t e
      (do
        let style ← computeStyle (s.contextOf (t.isRoot e) parent) collected
        finishElement t parent history e collected.matched s.settings.sharing style).run
          ⟨s, r⟩ := by
  rw [styleElement, PassM.run_bind_of_ok (PassM.run_styler _)]
  generalize s.collect t e = found
  obtain ⟨collected, s'⟩ := found
  dsimp only
  rw [PassM.run_bind_of_ok (PassM.run_modifyStyler _ _), computeStyle, bind_assoc]
  rfl

section Compact

variable {key : ElementKey} {signature : Signature} {parent : Option ComputedStyle}
  {history : SiblingHistory} {full similar : ComputedStyle} {p : PassState}

/-- The groups of a sibling are shared, if there is an alike one with a style. -/
theorem run_compact_of_sibling
    (h : (history.find? signature).bind (p.styler.styles[·]?) = some similar) :
    (compact key signature parent history full).run p =
      .ok ((full.compactWith similar, history.remember key signature),
        ⟨p.styler, { p.report with shared := p.report.shared + 1 }⟩) := by
  rw [compact, PassM.run_bind_of_ok (PassM.run_styler p)]
  dsimp only
  rw [h]
  rfl

/-- Otherwise those of the parent are. -/
theorem run_compact_of_none
    (h : (history.find? signature).bind (p.styler.styles[·]?) = none) :
    (compact key signature parent history full).run p =
      .ok ((parent.elim full full.compactWith, history.remember key signature), p) := by
  rw [compact, PassM.run_bind_of_ok (PassM.run_styler p)]
  dsimp only
  rw [h]
  cases parent <;> rfl

end Compact

/-- What sharing does to a style that was computed, and what it adds to the report. -/
structure Compacted (s : Styler) (key : ElementKey) (signature : Signature)
    (history : SiblingHistory) (full : ComputedStyle) (r : Report) (style : ComputedStyle)
    (history' : SiblingHistory) (r' : Report) : Prop where
  plain : style.plainForm = full.plainForm
  remembered : ∀ entry ∈ history'.entries, entry = (key, signature) ∨ entry ∈ history.entries
  /-- Only groups that are taken over from a sibling are reported. -/
  shared : r'.shared = r.shared ∨ r'.shared = r.shared + 1 ∧ ∃ key' similar,
    history.find? signature = some key' ∧ s.styles[key']? = some similar ∧
      style = full.compactWith similar

/-- Sharing groups, if it is asked for, does not show in the plain form. -/
theorem exists_compact (sharing : Bool) (key : ElementKey) (signature : Signature)
    (parent : Option ComputedStyle) (history : SiblingHistory) (full : ComputedStyle) (s : Styler)
    (r : Report) :
    ∃ style history' r', (if sharing then compact key signature parent history full
        else pure (full, history)).run ⟨s, r⟩ = .ok ((style, history'), ⟨s, r'⟩) ∧
      Compacted s key signature history full r style history' r' := by
  have hplain (similar : ComputedStyle) : (full.compactWith similar).plainForm = full.plainForm :=
    full.plainForm_compactWith similar
  have hremembered : ∀ entry ∈ (history.remember key signature).entries,
      entry = (key, signature) ∨ entry ∈ history.entries :=
    fun entry => SiblingHistory.mem_remember
  cases sharing with
  | false => exact ⟨full, history, r, rfl, rfl, fun _ => .inr, .inl rfl⟩
  | true =>
    cases hfound : (history.find? signature).bind (s.styles[·]?) with
    | some similar =>
      obtain ⟨key', hkey', hsimilar⟩ := Option.bind_eq_some_iff.mp hfound
      exact ⟨_, _, _, run_compact_of_sibling (p := ⟨s, r⟩) hfound, hplain similar, hremembered,
        .inr ⟨rfl, key', similar, hkey', hsimilar, rfl⟩⟩
    | none =>
      refine ⟨_, _, _, run_compact_of_none (p := ⟨s, r⟩) hfound, ?_, hremembered, .inl rfl⟩
      cases parent with
      | none => rfl
      | some parent => exact hplain parent

/-- What is stored for an element of the document. -/
theorem exists_finishElement {t : StyledTree ε} {e : ε} (he : t.isConnected e = true)
    (parent : Option ComputedStyle) (history : SiblingHistory) (matched : List SelectorId)
    (sharing : Bool) (full : ComputedStyle) (s : Styler) (r : Report) :
    ∃ style history' differences r',
      (finishElement t parent history e matched sharing full).run ⟨s, r⟩ =
        .ok (some (style, history'), ⟨{ s with
          differences := differences
          styles := s.styles.insert (t.key e) style
          rootFontSize := if t.isRoot e then style.fontSize else s.rootFontSize }, r'⟩) ∧
      Compacted s (t.key e) (.ofElement t e matched) history full r style history' r' := by
  obtain ⟨style, history', r', hcompact, hcompacted⟩ :=
    exists_compact sharing (t.key e) (.ofElement t e matched) parent history full s r
  let difference := (s.styles[t.key e]?).elim .containingBlockLayout (·.difference style)
  refine ⟨style, history', s.differences.insert (t.key e) difference,
    r'.record (t.key e) difference, ?_, hcompacted.plain, hcompacted.remembered, hcompacted.shared⟩
  rw [finishElement, if_pos he, PassM.run_ite_bind hcompact]
  rfl

/-- An element that is cut off is forgotten. -/
theorem run_finishElement_of_cut {t : StyledTree ε} {e : ε} (he : t.isConnected e = false)
    (parent : Option ComputedStyle) (history : SiblingHistory) (matched : List SelectorId)
    (sharing : Bool) (full : ComputedStyle) (s : Styler) (r : Report) :
    (finishElement t parent history e matched sharing full).run ⟨s, r⟩ =
      .ok (none, ⟨s.forget (t.key e), { r with discarded := r.discarded ++ [t.key e] }⟩) := by
  rw [finishElement, if_neg (by simp [he])]
  rfl

section Out

variable {t : StyledTree ε} {e : ε} {parent : Option ComputedStyle} {history : SiblingHistory}
  {p p' : PassState} {out : Option (ComputedStyle × SiblingHistory)}

theorem out_of_finishElement {matched : List SelectorId} {sharing : Bool} {full : ComputedStyle}
    (h : (finishElement t parent history e matched sharing full).run p = .ok (out, p')) :
    out.isSome = t.isConnected e ∧ p'.styler.styles[t.key e]? = out.map Prod.fst := by
  by_cases he : t.isConnected e = true
  · obtain ⟨style, history', differences, r', hrun, -⟩ :=
      exists_finishElement he parent history matched sharing full p.styler p.report
    obtain ⟨rfl, rfl⟩ := Prod.mk.inj (Except.ok.inj (h.symm.trans hrun))
    simp [he]
  · have hcut : t.isConnected e = false := by simpa using he
    obtain ⟨rfl, rfl⟩ := Prod.mk.inj (Except.ok.inj (h.symm.trans
      (run_finishElement_of_cut hcut parent history matched sharing full p.styler p.report)))
    simp [hcut, forget]

/-- An element gets a style for its children if it is part of the document, and it is the style that
is stored. -/
theorem out_of_styleElement (h : (styleElement t parent history e).run p = .ok (out, p')) :
    out.isSome = t.isConnected e ∧ p'.styler.styles[t.key e]? = out.map Prod.fst := by
  rw [run_styleElement] at h
  obtain ⟨full, p₁, -, h⟩ := PassM.exists_of_run_bind h
  exact out_of_finishElement h

end Out

end Styler

namespace PassInput

variable {i : PassInput ε} {root e : ε} {region : i.tree.Region root} {done : ε → Prop}
  {s : Styler}

/-- At the top, no element is done. -/
theorem Ready.isRoot_ne_true {parent : Option ComputedStyle} {rootFontSize : Float32} {x : ε}
    (h : i.Ready done rootFontSize e parent) (hx : done x) : ¬i.tree.isRoot e = true := by
  cases parent with
  | none => exact absurd hx (h.2 x)
  | some parent =>
    obtain ⟨p, hp, -⟩ := h
    rw [ElementTree.isRoot, hp]
    exact Bool.false_ne_true

/-- The context in which a pass computes the style of an element is like the naive one. -/
theorem Ready.exists_context {parent : Option ComputedStyle}
    (h : i.Ready done s.rootFontSize e parent) (hs : i.Midway region done s)
    (hfair : i.metrics.Fair) :
    ∃ parent' rootFontSize,
      (s.contextOf (i.tree.isRoot e) parent).Alike (i.naive.contextOf e parent' rootFontSize) ∧
      ∀ {style style' : ComputedStyle},
        i.naive.styleUnder e parent' rootFontSize = .ok style' →
        style.plainForm = style'.plainForm →
        i.naive.Agrees e style (if i.tree.isRoot e then style.fontSize else s.rootFontSize) := by
  cases parent with
  | none =>
    obtain ⟨htop, -⟩ := h
    have hroot : i.tree.isRoot e = true := by simp [ElementTree.isRoot, htop]
    refine ⟨none, i.settings.defaultFontSize, ?_, fun {style style'} hnaive hplain => ?_⟩
    · exact
        { initial := congrArg _ hs.initial
          settings := .of_eq hs.settings
          metrics := hs.metrics
          fair := hfair
          parent := rfl
          pseudo := rfl
          isRoot := rfl
          rootFontSize := congrArg plain ((if_pos hroot).trans (by rw [hs.settings]; rfl)) }
    · rw [if_pos hroot]
      exact NaivePass.agrees_top htop hnaive hplain
  | some parent =>
    obtain ⟨p, hp, hparent⟩ := h
    have hroot : i.tree.isRoot e = false := by simp [ElementTree.isRoot, hp]
    obtain ⟨parent', rootFontSize, hplain, hsize, hagrees⟩ := NaivePass.agrees_below hp hparent
    refine ⟨some parent', rootFontSize, ?_, fun {style style'} hnaive hplain => ?_⟩
    · exact
        { initial := congrArg _ hs.initial
          settings := .of_eq hs.settings
          metrics := hs.metrics
          fair := hfair
          parent := congrArg some hplain
          pseudo := rfl
          isRoot := rfl
          rootFontSize := (congrArg plain (if_neg (by simp [hroot]))).trans hsize }
    · rw [hroot]
      exact hagrees hnaive hplain

/-- Storing a style that agrees settles the element. -/
theorem Midway.commit (ht : i.tree.Rooted root) (h : i.Midway region done s) (he : region.mem e)
    (hnoted : s.dependencies.Has i.tree.toElementTree (i.heard e)) {style : ComputedStyle}
    {rootFontSize : Float32} (hsize : ∀ x, done x → rootFontSize = s.rootFontSize)
    (hstyle : i.naive.Agrees e style rootFontSize)
    (differences : Std.HashMap ElementKey Difference) :
    i.Midway region (fun x => x = e ∨ done x)
      { s with
        differences := differences
        styles := s.styles.insert (i.tree.key e) style
        rootFontSize := rootFontSize } where
  toSetUp := { h.toSetUp with }
  sound := h.sound
  done_mem hx := hx.elim (fun hx => hx ▸ he) h.done_mem
  settled {x} hx := by
    by_cases hxe : x = e
    · subst hxe
      exact ⟨⟨style, by simp, hstyle⟩, hnoted⟩
    · have hdone : done x := hx.resolve_left hxe
      have hkey : i.tree.key e ≠ i.tree.key x := by
        intro heq
        have hxmem := region.mem_elements (h.done_mem hdone)
        exact hxe (ht.key_injective hxmem (region.mem_elements he) heq.symm)
      obtain ⟨⟨stored, hstored, hagrees⟩, hnoted⟩ := h.settled hdone
      refine ⟨⟨stored, ?_, hsize x hdone ▸ hagrees⟩, hnoted⟩
      simpa [Std.HashMap.getElem?_insert, hkey] using hstored

/-- Styling an element of the region settles it. -/
theorem exists_styleElement (ht : i.tree.Rooted root) (hfair : i.metrics.Fair)
    (hfits : i.naive.Fits e) (h : i.Midway region done s) (he : region.mem e)
    (hfilter : s.Filtered i.tree e) {parent : Option ComputedStyle}
    (hready : i.Ready done s.rootFontSize e parent) (r : Report) (history : SiblingHistory) :
    ∃ style history' s' r', (Styler.styleElement i.tree parent history e).run ⟨s, r⟩ =
        .ok (some (style, history'), ⟨s', r'⟩) ∧
      i.Midway region (fun x => x = e ∨ done x) s' ∧ s'.Filtered i.tree e ∧
      i.naive.Agrees e style s'.rootFontSize := by
  obtain ⟨hcollected, hmidway, hnoted⟩ := h.collect ht.lawful he hfilter
  -- `s'` is the styler after collecting; the steps that follow run on it.
  obtain ⟨s', hs⟩ : ∃ s', s' = (s.collect i.tree e).2 := ⟨_, rfl⟩
  have hpair : s.collect i.tree e = (i.index.gather i.tree e, s') := Prod.ext hcollected hs.symm
  have hsize : s'.rootFontSize = s.rootFontSize := by rw [hs]; rfl
  have hfiltered : s'.Filtered i.tree e := by rw [hs]; exact hfilter
  rw [← hs] at hmidway hnoted
  have hready : i.Ready done s'.rootFontSize e parent := by
    rw [hsize]
    exact hready
  obtain ⟨parent', rootFontSize, hcontext, hagrees⟩ := hready.exists_context hmidway hfair
  obtain ⟨full', hnaive⟩ := hfits.exists_styleUnder parent' rootFontSize
  have hentries (target : Option PseudoElement) :
      (i.index.gather i.tree e).entriesOf target = i.naive.entries e target := rfl
  obtain ⟨full, stamp, hfull, hplain⟩ :=
    (Styler.mirrors_computeStyle hentries hcontext).exists_run hnaive s' r
  obtain ⟨style, history', differences, r', hfinish, hcompacted⟩ :=
    Styler.exists_finishElement (ht.connected (region.mem_elements he)) parent history
      (i.index.gather i.tree e).matched s'.settings.sharing full { s' with stamp := stamp } r
  have hagrees := hagrees hnaive (hcompacted.plain.trans hplain)
  -- The font size of the root is written at the top only, where no element is done yet.
  have hdone (x : ε) (hx : done x) :
      (if i.tree.isRoot e then style.fontSize else s'.rootFontSize) = s'.rootFontSize :=
    if_neg (hready.isRoot_ne_true hx)
  have hfinal := (hmidway.commit ht he hnoted hdone hagrees differences).with s'.filter stamp
    differences
  refine ⟨style, history', _, r', ?_, hfinal, hfiltered, hagrees⟩
  rw [Styler.run_styleElement, hpair]
  dsimp only
  rw [PassM.run_bind_of_ok hfull]
  exact hfinish

end PassInput

end StyleEngine
