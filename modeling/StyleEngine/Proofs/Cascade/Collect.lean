import StyleEngine.Cascade.Collect
import StyleEngine.Proofs.Cascade.Index
import StyleEngine.Proofs.Matching.Memory

/-!
# The collector finds what applies

What is collected for an element is a function of the tree, whatever true answers the memory holds
and whatever the filter refuses. For an index that is built from sheets it comes to going through
all active selectors in document order, keeping those that match, and sorting their declarations
between hints and inline declarations.

## Main definitions

* `RuleIndex.gather`, `RuleIndex.heard`: what is collected for an element, and what is noted.
* `SheetSet.entries`: the declarations that apply to an element, in document order.

## Main statements

* `RuleIndex.serves_collect`: the collector comes to `RuleIndex.gather`.
* `RuleIndex.collect_build`: it returns the declarations that apply, in cascade order.
-/

namespace StyleEngine

variable {ε κ : Type} [BEq κ] [LawfulBEq κ] [Hashable κ]

/-! ## Matching with a filter -/

/-- A filter, if there is one, that counts the ancestors of `e` in a tree. -/
def AncestorFilter.Truthful (digest : Feature → κ) (t : ElementTree ε)
    (filter : Option (AncestorFilter κ)) (e : ε) : Prop :=
  ∀ f ∈ filter, t.Lawful ∧ f.Counts (ancestorKeys digest t e)

/-- Whether a filter, if there is one, lets a selector pass. -/
def AncestorFilter.passes (digest : Feature → κ) (filter : Option (AncestorFilter κ))
    (s : Complex) : Bool :=
  filter.all (·.mayMatch digest s)

namespace Complex

/-- What becomes of a selector that a filter may refuse. -/
def filteredOutcome (digest : Feature → κ) (filter : Option (AncestorFilter κ))
    (t : ElementTree ε) (mode : DocumentMode) (s : Complex) (e : ε) : Outcome :=
  if AncestorFilter.passes digest filter s then s.outcome t mode e else .failsSubtree

/-- What is noted for a selector that a filter may refuse. -/
def filteredReadings (digest : Feature → κ) (filter : Option (AncestorFilter κ))
    (t : ElementTree ε) (mode : DocumentMode) (s : Complex) (e : ε) : Readings ε :=
  if AncestorFilter.passes digest filter s then s.readings t mode e else []

/-- What a truthful filter refuses does not match. -/
theorem isMatch_filteredOutcome {digest : Feature → κ} {filter : Option (AncestorFilter κ)}
    {t : ElementTree ε} {e : ε} (hf : AncestorFilter.Truthful digest t filter e)
    (mode : DocumentMode) (s : Complex) :
    (s.filteredOutcome digest filter t mode e).isMatch = (s.outcome t mode e).isMatch := by
  unfold filteredOutcome
  split
  · rfl
  · next hrefused =>
    cases filter with
    | none => simp [AncestorFilter.passes] at hrefused
    | some f =>
      obtain ⟨ht, hcounts⟩ := hf f rfl
      cases houtcome : s.outcome t mode e with
      | failsLocal | failsSubtree => rfl
      | accepted =>
        have hmatches := (outcome_eq_accepted_iff ht).mp houtcome
        exact absurd (hcounts.mayMatch_of_matches ht hmatches) hrefused

end Complex

omit [LawfulBEq κ] in
/-- A selector is answered as by plain matching unless the filter refuses it. -/
theorem MatchScope.serves_match? {σ : MatchScope ε} {id : Option SelectorId} {s : Complex}
    (hid : ∀ i ∈ id, σ.select i = some s) {e : ε} (he : σ.seen e) (digest : Feature → κ)
    (filter : Option (AncestorFilter κ)) :
    σ.Serves (s.match? digest σ.tree σ.mode filter id e)
      (s.verdict (s.filteredOutcome digest filter σ.tree σ.mode e))
      (s.filteredReadings digest filter σ.tree σ.mode e) := by
  unfold Complex.match? Complex.filteredOutcome Complex.filteredReadings AncestorFilter.passes
  split
  · exact (serves_matchAt hid he).map _
  · exact serves_pure _

namespace RuleIndex

/-! ## Collecting without memory -/

/-- The scope of matching with the selectors of an index at elements of `seen`. -/
def scope (index : RuleIndex) (t : ElementTree ε) (seen : ε → Prop)
    (hseen : ∀ {combinator e a}, seen e → a ∈ Combinator.candidates t e combinator → seen a) :
    MatchScope ε where
  tree := t
  mode := index.mode
  select id := (index.selector? id).map (·.2.1)
  seen := seen
  seen_candidate := hseen

/-- Whether the selector behind an id matches. -/
def answers (index : RuleIndex) (t : ElementTree ε) (e : ε) (id : SelectorId) : Bool :=
  (index.selector? id).any fun (_, selector, _) => (selector.outcome t index.mode e).isMatch

/-- The target of the selector behind an id, and the entries that the selector adds. -/
def targeted? (index : RuleIndex) (id : SelectorId) :
    Option (Option PseudoElement × List Entry) :=
  (index.selector? id).map fun (rule, selector, specificity) =>
    (selector.pseudoElement?,
      Entry.ofBlock rule.declarations rule.origin (some id) specificity rule.sourceOrder)

/-- Adds what a selector that matches adds. -/
def gatherSelector (index : RuleIndex) (c : Collected) (id : SelectorId) : Collected :=
  match index.targeted? id with
  | none => c
  | some (target, es) => { c.extend target es with matched := c.matched ++ [id] }

/-- The declarations for an element, in cascade order, as the tree alone says. -/
def gather (index : RuleIndex) (t : StyledTree ε) (e : ε) : Collected :=
  let found := ((index.lookup t.toElementTree e).filter (index.answers t.toElementTree e)).foldl
    index.gatherSelector (Collected.empty.extend none ((t.hints? e).elim [] Entry.ofHints))
  (found.extend none ((t.inline? e).elim [] Entry.ofInline)).sort

/-- What is noted for the selector behind an id. -/
def heardOf (digest : Feature → κ) (filter : Option (AncestorFilter κ)) (index : RuleIndex)
    (t : ElementTree ε) (e : ε) (id : SelectorId) : Readings ε :=
  (index.selector? id).elim [] fun (_, selector, _) =>
    selector.filteredReadings digest filter t index.mode e

/-- What is noted while the declarations for an element are collected. -/
def heard (digest : Feature → κ) (filter : Option (AncestorFilter κ)) (index : RuleIndex)
    (t : ElementTree ε) (e : ε) : Readings ε :=
  (index.lookup t e).flatMap (index.heardOf digest filter t e)

/-- What is noted hangs on what the filter counts. -/
theorem heard_congr_counts {f f' : AncestorFilter κ} {l : List κ} (h : f.Counts l)
    (h' : f'.Counts l) (digest : Feature → κ) (index : RuleIndex) (t : ElementTree ε) (e : ε) :
    index.heard digest (some f) t e = index.heard digest (some f') t e := by
  have hpasses (s : Complex) :
      AncestorFilter.passes digest (some f) s = AncestorFilter.passes digest (some f') s :=
    h.mayMatch_congr h' digest s
  unfold heard heardOf Complex.filteredReadings
  simp only [hpasses]

theorem serves_foldlM {σ : MatchScope ε} {α β : Type} {f : β → α → MatchM β} {g : β → α → β}
    {readings : α → Readings ε} (h : ∀ b a, σ.Serves (f b a) (g b a) (readings a)) (l : List α)
    (b : β) : σ.Serves (l.foldlM f b) (l.foldl g b) (l.flatMap readings) := by
  induction l generalizing b with
  | nil => exact MatchScope.serves_pure b
  | cons a l ih =>
    rw [List.foldlM_cons, List.foldl_cons, List.flatMap_cons]
    exact (h b a).bind (ih _)

variable {index : RuleIndex} {digest : Feature → κ} {filter : Option (AncestorFilter κ)}
  {t : ElementTree ε} {e : ε} {seen : ε → Prop}
  {hseen : ∀ {combinator e a}, seen e → a ∈ Combinator.candidates t e combinator → seen a}

/-- One selector adds what it should, from any sound memory. -/
theorem serves_collectSelector (hf : AncestorFilter.Truthful digest t filter e) (he : seen e)
    (c : Collected) (id : SelectorId) :
    (index.scope t seen hseen).Serves (collectSelector digest filter index t e c id)
      (if index.answers t e id then index.gatherSelector c id else c)
      (index.heardOf digest filter t e id) := by
  unfold collectSelector answers gatherSelector targeted? heardOf
  cases hid : index.selector? id with
  | none => exact MatchScope.serves_pure c
  | some found =>
    obtain ⟨rule, selector, specificity⟩ := found
    have hselect : ∀ i ∈ some id, (index.scope t seen hseen).select i = some selector := by
      rintro i ⟨⟩
      simp [scope, hid]
    have hmatch : (index.scope t seen hseen).Serves
        (selector.match? digest t index.mode filter (some id) e)
        (selector.verdict (selector.filteredOutcome digest filter t index.mode e))
        (selector.filteredReadings digest filter t index.mode e) :=
      MatchScope.serves_match? hselect he digest filter
    have hsame := Complex.isMatch_filteredOutcome hf index.mode selector
    rw [← List.append_nil (Option.elim _ _ _)]
    refine hmatch.bind ?_
    simp only [Option.any_some, Option.map_some, ← hsame, Verdict.isMatch, Complex.verdict]
    split
    · exact MatchScope.serves_pure _
    · exact MatchScope.serves_pure c

/-- The collector comes to what the tree alone says, and notes what was read, from any sound
memory. -/
theorem serves_collect {t : StyledTree ε}
    (hseen : ∀ {combinator e a}, seen e →
      a ∈ Combinator.candidates t.toElementTree e combinator → seen a)
    (hf : AncestorFilter.Truthful digest t.toElementTree filter e) (he : seen e) :
    (index.scope t.toElementTree seen hseen).Serves (index.collect digest filter t e)
      (index.gather t e) (index.heard digest filter t.toElementTree e) := by
  have hone (c : Collected) (id : SelectorId) :
      (index.scope t.toElementTree seen hseen).Serves
        (collectSelector digest filter index t.toElementTree e c id)
        (if index.answers t.toElementTree e id then index.gatherSelector c id else c)
        (index.heardOf digest filter t.toElementTree e id) :=
    serves_collectSelector hf he c id
  have h := (serves_foldlM hone (index.lookup t.toElementTree e)
    (Collected.empty.extend none ((t.hints? e).elim [] Entry.ofHints))).map fun found =>
      (found.extend none ((t.inline? e).elim [] Entry.ofInline)).sort
  rw [gather, List.foldl_filter]
  exact h

/-- Without a filter and a memory, the collector comes to what the tree alone says. -/
theorem run_collect_none (index : RuleIndex) (t : StyledTree ε) (e : ε) :
    ((index.collect (id : Feature → Feature) none t e).run .none).1 = index.gather t e := by
  have hserves : (index.scope t.toElementTree (fun _ => True) fun _ _ => trivial).Serves
      (index.collect (id : Feature → Feature) none t e) (index.gather t e)
      (index.heard id none t.toElementTree e) :=
    serves_collect (fun _ _ => trivial) nofun trivial
  exact (hserves .none (MatchScope.sound_of_uncached rfl)).1

end RuleIndex

/-! ## One list of entries -/

namespace Collected

/-- The entries for the element itself, or for a pseudo-element. -/
def entriesOf (c : Collected) : Option PseudoElement → List Entry
  | none => c.entries
  | some p => c.forPseudo p

variable {c : Collected} {target target' : Option PseudoElement} {es : List Entry}

theorem find?_extendPseudo (p q : PseudoElement) (es : List Entry)
    (l : List (PseudoElement × List Entry)) :
    (((extendPseudo p es l).find? (·.1 = q)).map Prod.snd).getD [] =
      ((l.find? (·.1 = q)).map Prod.snd).getD [] ++ if p = q then es else [] := by
  induction l with
  | nil => by_cases h : p = q <;> simp [extendPseudo, h]
  | cons entry l ih =>
    obtain ⟨r, old⟩ := entry
    unfold extendPseudo
    split
    · next h =>
      subst h
      by_cases hr : r = q <;> simp [hr]
    · next h =>
      by_cases hr : r = q
      · subst hr
        simp [Ne.symm h]
      · simpa [List.find?_cons, hr] using ih

theorem entriesOf_extend :
    (c.extend target es).entriesOf target' =
      c.entriesOf target' ++ if target = target' then es else [] := by
  cases target with
  | none => cases target' <;> simp [extend, entriesOf, forPseudo]
  | some p =>
    cases target' with
    | none => simp [extend, entriesOf]
    | some q => simpa [extend, entriesOf, forPseudo] using find?_extendPseudo p q es c.pseudos

theorem entriesOf_sort :
    c.sort.entriesOf target = Priority.sortBy Entry.priority (c.entriesOf target) := by
  cases target with
  | none => rfl
  | some p =>
    simp only [entriesOf, forPseudo, sort]
    induction c.pseudos with
    | nil => simp [Priority.sortBy]
    | cons entry l ih =>
      by_cases h : entry.1 = p
      · simp [h]
      · simpa [List.find?_cons, h] using ih

end Collected

/-! ## Selectors that match -/

namespace RuleIndex

variable (index : RuleIndex)

/-- What the selector behind an id adds for a target. -/
def entriesFor (target : Option PseudoElement) (id : SelectorId) : List Entry :=
  (index.targeted? id).elim [] fun (target', es) => if target' = target then es else []

theorem entriesOf_foldl_gatherSelector (ids : List SelectorId) (c : Collected)
    (target : Option PseudoElement) :
    (ids.foldl index.gatherSelector c).entriesOf target =
      c.entriesOf target ++ ids.flatMap (index.entriesFor target) := by
  induction ids generalizing c with
  | nil => simp
  | cons id ids ih =>
    have hone : (index.gatherSelector c id).entriesOf target =
        c.entriesOf target ++ index.entriesFor target id := by
      unfold gatherSelector entriesFor
      cases index.targeted? id with
      | none => simp
      | some found => exact Collected.entriesOf_extend
    rw [List.foldl_cons, ih, hone, List.flatMap_cons, List.append_assoc]

theorem matched_foldl_gatherSelector {ids : List SelectorId}
    (h : ∀ id ∈ ids, (index.targeted? id).isSome = true) (c : Collected) :
    (ids.foldl index.gatherSelector c).matched = c.matched ++ ids := by
  induction ids generalizing c with
  | nil => simp
  | cons id ids ih =>
    rw [List.forall_mem_cons] at h
    obtain ⟨found, hfound⟩ := Option.isSome_iff_exists.mp h.1
    have hone : (index.gatherSelector c id).matched = c.matched ++ [id] := by
      rw [gatherSelector, hfound]
    rw [List.foldl_cons, ih h.2, hone, List.append_assoc]
    rfl

end RuleIndex

/-! ## What applies -/

namespace ActiveSelector

/-- Whether the selector matches an element, without memory and without a filter. -/
def applies (t : ElementTree ε) (mode : DocumentMode) (e : ε) (a : ActiveSelector) : Bool :=
  ((a.selector.matchAt t mode none e).run .none).1.isMatch

/-- A selector that matches is one whose subject holds. -/
theorem subject_holds_of_applies {t : ElementTree ε} {mode : DocumentMode} {e : ε}
    {a : ActiveSelector} (h : a.applies t mode e = true) :
    a.selector.subject.holds t mode true e = true := by
  rw [applies, Complex.run_matchAt_of_uncached t mode none a.selector e rfl, Complex.outcome] at h
  split at h
  · assumption
  · cases h

/-- One entry for each declaration of the rule. -/
def entries (a : ActiveSelector) : List Entry :=
  Entry.ofBlock a.rule.declarations a.origin (some a.id) a.selector.specificity
    (UInt32.ofNat a.number)

end ActiveSelector

namespace SheetSet

/-- The active selectors that match an element. -/
def applicable (set : SheetSet) (m : Medium) (t : ElementTree ε) (e : ε) : List ActiveSelector :=
  (set.activeSelectors m).filter (·.applies t set.mode e)

/-- The entries for an element or a pseudo-element of it, in the order in which they are found:
hints, then the declarations of each selector that matches, then inline declarations. Hints and
inline declarations are for the element itself. -/
def entries (set : SheetSet) (m : Medium) (t : StyledTree ε) (e : ε)
    (target : Option PseudoElement) : List Entry :=
  (if target = none then (t.hints? e).elim [] Entry.ofHints else []) ++
    ((set.applicable m t.toElementTree e).filter (·.selector.pseudoElement? = target)).flatMap
      ActiveSelector.entries ++
    if target = none then (t.inline? e).elim [] Entry.ofInline else []

end SheetSet

namespace RuleIndex

variable {set : SheetSet} {m : Medium}

theorem targeted?_build (h : set.Countable m) {a : ActiveSelector}
    (ha : a ∈ set.activeSelectors m) :
    (build set m).targeted? a.id = some (a.selector.pseudoElement?, a.entries) := by
  rw [targeted?, selector?_build h ha]
  rfl

theorem answers_build (h : set.Countable m) (t : ElementTree ε) (e : ε) {a : ActiveSelector}
    (ha : a ∈ set.activeSelectors m) :
    (build set m).answers t e a.id = a.applies t set.mode e := by
  rw [answers, selector?_build h ha, ActiveSelector.applies,
    Complex.run_matchAt_of_uncached t set.mode none a.selector e rfl, mode_build]
  rfl

/-- What active selectors add, one after the other. -/
theorem foldl_gatherSelector (h : set.Countable m) {l : List ActiveSelector}
    (hl : l ⊆ set.activeSelectors m) (c : Collected) :
    ((l.map (·.id)).foldl (build set m).gatherSelector c).matched = c.matched ++ l.map (·.id) ∧
      ∀ target, ((l.map (·.id)).foldl (build set m).gatherSelector c).entriesOf target =
        c.entriesOf target ++
          (l.filter (·.selector.pseudoElement? = target)).flatMap ActiveSelector.entries := by
  refine ⟨matched_foldl_gatherSelector _ (List.forall_mem_map.mpr fun a ha => ?_) c,
    fun target => ?_⟩
  · rw [targeted?_build h (hl ha)]
    rfl
  · rw [entriesOf_foldl_gatherSelector]
    refine congrArg _ ?_
    induction l with
    | nil => rfl
    | cons a l ih =>
      obtain ⟨ha, hl⟩ := List.cons_subset.mp hl
      rw [List.map_cons, List.flatMap_cons, ih hl, entriesFor, targeted?_build h ha]
      by_cases htarget : a.selector.pseudoElement? = target <;> simp [htarget]

/-- What is gathered from an index of sheets. -/
theorem gather_build (h : set.Countable m) (t : StyledTree ε) (e : ε) :
    ((build set m).gather t e).matched = (set.applicable m t.toElementTree e).map (·.id) ∧
      ∀ target, ((build set m).gather t e).entriesOf target =
        Priority.sortBy Entry.priority (set.entries m t e target) := by
  have hfilter : ((build set m).lookup t.toElementTree e).filter
      ((build set m).answers t.toElementTree e) =
        (set.applicable m t.toElementTree e).map (·.id) := by
    exact filter_lookup_build h t.toElementTree set.mode e
      (fun a ha => answers_build h t.toElementTree e ha)
      fun _ _ happlies => ActiveSelector.subject_holds_of_applies happlies
  have hl : set.applicable m t.toElementTree e ⊆ set.activeSelectors m :=
    List.filter_subset_self _
  obtain ⟨hmatched, hentries⟩ := foldl_gatherSelector h hl
    (Collected.empty.extend none ((t.hints? e).elim [] Entry.ofHints))
  have hempty (target : Option PseudoElement) : Collected.empty.entriesOf target = [] := by
    cases target <;> rfl
  simp only [gather, hfilter]
  refine ⟨hmatched.trans (List.nil_append _), fun target => ?_⟩
  rw [Collected.entriesOf_sort, Collected.entriesOf_extend]
  have htarget := hentries target
  rw [Collected.entriesOf_extend, hempty, List.nil_append] at htarget
  rw [htarget, SheetSet.entries]
  simp only [eq_comm (a := target)]

/-- The collector over an index of sheets returns the selectors that match, each once and in
document order, and for the element and each of its pseudo-elements just the declarations that
apply, sorted by their keys and else in the order in which they are found. It may be helped by a
memory that holds true answers, and by a filter that counts the ancestors of the element. -/
theorem collect_build (h : set.Countable m) (digest : Feature → κ) (t : StyledTree ε) (e : ε)
    {filter : Option (AncestorFilter κ)}
    (hfilter : AncestorFilter.Truthful digest t.toElementTree filter e) {seen : ε → Prop}
    {hseen : ∀ {combinator e a}, seen e →
      a ∈ Combinator.candidates t.toElementTree e combinator → seen a}
    (he : seen e) {memory : MatchMemory}
    (hmemory : ((build set m).scope t.toElementTree seen hseen).Sound memory) :
    let collected := (((build set m).collect digest filter t e).run memory).1
    collected.matched.map (fun id => (id.rule.toNat, id.position.toNat)) =
        (set.applicable m t.toElementTree e).map (fun a => (a.number, a.place)) ∧
      collected.matched.Nodup ∧
      ∀ target, Priority.StableSort Entry.priority (set.entries m t e target)
        (collected.entriesOf target) := by
  intro collected
  have hcollected : collected = (build set m).gather t e :=
    (serves_collect @hseen hfilter he memory hmemory).1
  obtain ⟨hmatched, hentries⟩ := gather_build h t e
  have hactive {a : ActiveSelector} (ha : a ∈ set.applicable m t.toElementTree e) :
      a.id.weights = [a.number, a.place] := h.weights_id (List.mem_of_mem_filter ha)
  rw [hcollected, hmatched]
  refine ⟨?_, ?_, fun target => ?_⟩
  · rw [List.map_map]
    refine List.map_congr_left fun a ha => ?_
    simpa [SelectorId.weights] using hactive ha
  · refine List.pairwise_map.mpr ((SheetSet.pairwise_activeSelectors.filter _).imp_of_mem ?_)
    rintro a b ha hb hlt heq
    have hweights : a.id.weights = b.id.weights := congrArg SelectorId.weights heq
    rw [hactive ha, hactive hb] at hweights
    exact List.lt_irrefl _ (hweights ▸ hlt)
  · rw [hentries]
    exact Priority.stableSort_sortBy Entry.priority _

/-- Two sheets about the younger sibling of a family, one of them for a pseudo-element. -/
theorem collect_build_family :
    let rule : Rule := ⟨[⟨[.tag "li"], []⟩, ⟨[.pseudoElement .before], [(.descendant, [])]⟩],
      [⟨.known .float, .floating .left, true⟩]⟩
    let set : SheetSet := ⟨.standards, [⟨.userAgent, [rule], none⟩, ⟨.author, [rule], none⟩]⟩
    let t := Relative.tree fun _ => .none
    let filter := some (AncestorFilter.ofAncestors id t.toElementTree Relative.younger)
    set.Countable .screen ∧
      let collected :=
        (((build set .screen).collect id filter t Relative.younger).run .none).1
      collected.matched.map (fun id => (id.rule.toNat, id.position.toNat)) =
          (set.applicable .screen t.toElementTree Relative.younger).map
            (fun a => (a.number, a.place)) ∧
        collected.matched.Nodup ∧
        ∀ target, Priority.StableSort Entry.priority
          (set.entries .screen t Relative.younger target) (collected.entriesOf target) := by
  intro rule set t filter
  have h : set.Countable .screen :=
    { rules_lt := by decide
      selectors_le := by
        intro entry hentry
        have hrules : RuleIndex.activeRules set .screen = [(.userAgent, rule), (.author, rule)] :=
          rfl
        rw [hrules] at hentry
        rcases List.mem_cons.mp hentry with rfl | hentry
        · decide
        · rw [List.mem_singleton.mp hentry]
          decide }
  have hfilter : AncestorFilter.Truthful id t.toElementTree filter Relative.younger := by
    intro f hf
    obtain rfl := Option.some.inj hf
    exact ⟨(Relative.lawful_tree _).toLawful, AncestorFilter.counts_ofAncestors id _ _⟩
  have hsound : ((build set .screen).scope t.toElementTree (fun _ => True)
      fun _ _ => trivial).Sound .none := MatchScope.sound_of_uncached rfl
  exact ⟨h, collect_build h id t _ hfilter trivial hsound⟩

end RuleIndex

end StyleEngine
