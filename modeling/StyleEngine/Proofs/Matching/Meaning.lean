import StyleEngine.Proofs.Matching.Plain
import StyleEngine.Proofs.Tree.Family
import StyleEngine.Proofs.Tree.Walk

/-!
# What a selector means

A selector matches an element if one element can be chosen for each compound, the given one for the
subject, such that every compound holds at its element and neighbouring elements are related as the
combinators ask. The matcher does not try all choices: it gives up as soon as a candidate fails for
its whole subtree. It is right to do so, because such a failure speaks of every element without
ancestors of its own.

## Main statements

* `Complex.outcome_eq_accepted_iff`: the matcher accepts just the elements that a selector matches.
* `Complex.not_matches_of_failsSubtree`: how far a failure for the subtree reaches.
-/

namespace StyleEngine

variable {ε : Type} {t : ElementTree ε} {mode : DocumentMode}

namespace Complex

/-- One element for each compound of `s`, subject first. -/
structure Chain (t : ElementTree ε) (mode : DocumentMode) (s : Complex) (es : List ε) : Prop where
  length_eq : es.length = s.size
  holds : ∀ {i c x}, s.compound? i = some c → es[i]? = some x → c.holds t mode (i == 0) x = true
  relates : ∀ {i combinator x y}, s.combinator? i = some combinator →
    es[i]? = some x → es[i + 1]? = some y → combinator.Relates t y x

/-- Whether a selector matches an element. -/
def Matches (t : ElementTree ε) (mode : DocumentMode) (s : Complex) (e : ε) : Prop :=
  ∃ es, s.Chain t mode (e :: es)

/-- Whether elements can be chosen for all that is left of a compound at `e`. -/
def MatchesLeft (t : ElementTree ε) (mode : DocumentMode) :
    List (Combinator × Compound) → ε → Prop
  | [], _ => True
  | (combinator, c) :: left, e =>
    ∃ a, combinator.Relates t a e ∧ c.holds t mode false a = true ∧ MatchesLeft t mode left a

/-- Choosing the elements one after the other is choosing them all at once. -/
theorem matchesLeft_iff {left : List (Combinator × Compound)} {e : ε} :
    MatchesLeft t mode left e ↔
      ∃ es : List ε, es.length = left.length ∧
        ∀ {i : Nat} {combinator : Combinator} {c : Compound} {x y : ε},
          left[i]? = some (combinator, c) → (e :: es)[i]? = some x → es[i]? = some y →
            c.holds t mode false y = true ∧ combinator.Relates t y x := by
  induction left generalizing e with
  | nil => simp [MatchesLeft]
  | cons head left ih =>
    obtain ⟨combinator, c⟩ := head
    rw [MatchesLeft]
    constructor
    · rintro ⟨a, hrel, hc, hleft⟩
      obtain ⟨es, hlen, hes⟩ := ih.mp hleft
      refine ⟨a :: es, by simp [hlen], ?_⟩
      intro i combinator' c' x y hi hx hy
      cases i with
      | zero =>
        simp only [List.getElem?_cons_zero, Option.some.injEq, Prod.mk.injEq] at hi hx hy
        obtain ⟨rfl, rfl⟩ := hi
        subst hx hy
        exact ⟨hc, hrel⟩
      | succ i => exact hes hi hx hy
    · rintro ⟨es, hlen, hes⟩
      cases es with
      | nil => simp at hlen
      | cons a es =>
        obtain ⟨hc, hrel⟩ := hes (i := 0) rfl rfl rfl
        refine ⟨a, hrel, hc, ih.mpr ⟨es, by simpa using hlen, ?_⟩⟩
        intro i combinator' c' x y hi hx hy
        exact hes (i := i + 1) hi hx hy

theorem matches_iff {s : Complex} {e : ε} :
    s.Matches t mode e ↔
      s.subject.holds t mode true e = true ∧ MatchesLeft t mode s.left e := by
  rw [matchesLeft_iff]
  constructor
  · rintro ⟨es, hlen, hholds, hrelates⟩
    refine ⟨hholds (i := 0) rfl rfl, es, by simpa [size] using hlen, ?_⟩
    intro i combinator c x y hi hx hy
    constructor
    · exact hholds (i := i + 1) (by simp [compound?, compounds, hi]) hy
    · exact hrelates (by simp [combinator?, hi]) hx hy
  · rintro ⟨hsubject, es, hlen, hes⟩
    refine ⟨es, by simp [size, hlen], ?_, ?_⟩
    · intro i c x hi hx
      cases i with
      | zero =>
        simp only [compound?, compounds, List.getElem?_cons_zero, Option.some.injEq] at hi hx
        subst hi hx
        exact hsubject
      | succ i =>
        simp only [compound?, compounds, List.getElem?_cons_succ, List.getElem?_map,
          Option.map_eq_some_iff] at hi
        obtain ⟨⟨combinator, c'⟩, hi, rfl⟩ := hi
        have hlt : i < (e :: es).length := by
          have := (List.getElem?_eq_some_iff.mp hx).1
          simp only [List.length_cons] at this ⊢
          omega
        exact (hes hi (List.getElem?_eq_getElem hlt) hx).1
    · intro i combinator x y hi hx hy
      simp only [combinator?, Option.map_eq_some_iff] at hi
      obtain ⟨⟨combinator', c⟩, hi, rfl⟩ := hi
      exact (hes hi hx hy).2

end Complex

/-- The candidates of a combinator are the elements related by it. -/
theorem Combinator.mem_candidates_iff (ht : t.Lawful) {combinator : Combinator} {a e : ε} :
    a ∈ combinator.candidates t e ↔ combinator.Relates t a e := by
  cases combinator with
  | descendant => exact ht.relates_descendant.symm
  | child => simp [candidates, Relates]
  | adjacentSibling => simp [candidates, Relates]
  | generalSibling => exact ht.relates_generalSibling.symm

/-- Where nothing is left to try for a whole subtree, elements without further ancestors have no
further candidates. -/
theorem Combinator.candidates_subset_of_exhausted {combinator : Combinator} {e x a : ε}
    (h : combinator.exhausted t e = .failsSubtree) (hx : t.ancestors x <:+ t.ancestors e)
    (ha : a ∈ combinator.candidates t x) : a ∈ combinator.candidates t e := by
  cases combinator with
  | descendant => exact hx.subset ha
  | child =>
    have hroot : t.ancestors e = [] := by
      simpa [exhausted, ElementTree.isRoot] using h
    rw [hroot, List.suffix_nil] at hx
    simp [candidates, ElementTree.parent?, hx] at ha
  | adjacentSibling | generalSibling => cases h

/-- Let `x` have no ancestor beyond those of `e`. A candidate of `x` is one that `e` tries before
`a`, or it has no ancestor beyond those of `a`. -/
theorem Combinator.candidate_cases (ht : t.Lawful) {combinator : Combinator} {e x a b : ε}
    {before after : List ε} (hl : combinator.candidates t e = before ++ a :: after)
    (hb : b ∈ combinator.candidates t x) (hx : t.ancestors x <:+ t.ancestors e) :
    b ∈ before ∨ t.ancestors b <:+ t.ancestors a := by
  have ha : a ∈ combinator.candidates t e := by simp [hl]
  rw [mem_candidates_iff ht] at ha hb
  have beside {y z : ε} (h : z ∈ t.preceding y) : t.ancestors z = t.ancestors y :=
    ht.ancestors_of_mem_preceding h
  cases combinator with
  | descendant =>
    have hbe : b ∈ before ++ a :: after := hl ▸ hx.subset (ht.relates_descendant.mp hb)
    rcases List.mem_append.mp hbe with hbefore | hafter
    · exact .inl hbefore
    · right
      rcases List.mem_cons.mp hafter with rfl | hafter
      · exact List.suffix_refl _
      · exact ht.ancestors_suffix (by rwa [ht.ancestors_of_split hl])
  | child =>
    rw [ht.ancestors_of_parent? ha, ht.ancestors_of_parent? hb] at hx
    right
    rcases List.suffix_cons_iff.mp hx with heq | hsuffix
    · obtain ⟨-, hrest⟩ := List.cons.inj heq
      exact hrest ▸ List.suffix_refl _
    · exact (List.suffix_cons b _).trans hsuffix
  | adjacentSibling =>
    right
    rwa [beside (List.mem_of_head? ha), beside (List.mem_of_head? hb)]
  | generalSibling =>
    rw [ht.relates_generalSibling] at ha hb
    right
    rwa [beside ha, beside hb]

namespace Outcome

/-- What the walk over candidates comes to: acceptance at one of them, failure at all of them, or
failure for the subtree of one after local failures. -/
theorem firstDecisive_cases (attempt : ε → Outcome) (exhausted : Outcome) (l : List ε) :
    (∃ a ∈ l, attempt a = .accepted ∧ firstDecisive attempt exhausted l = .accepted) ∨
    ((∀ a ∈ l, attempt a = .failsLocal) ∧ firstDecisive attempt exhausted l = exhausted) ∨
    (∃ before a after, l = before ++ a :: after ∧ (∀ b ∈ before, attempt b = .failsLocal) ∧
      attempt a = .failsSubtree ∧ firstDecisive attempt exhausted l = .failsSubtree) := by
  induction l with
  | nil => exact .inr (.inl ⟨by simp, rfl⟩)
  | cons e l ih =>
    rw [firstDecisive]
    cases he : attempt e with
    | accepted => exact .inl ⟨e, by simp, he, by simp⟩
    | failsSubtree => exact .inr (.inr ⟨[], e, l, rfl, by simp, he, by simp⟩)
    | failsLocal =>
      rw [if_pos rfl]
      rcases ih with ⟨a, ha, h⟩ | ⟨hl, h⟩ | ⟨before, a, after, rfl, hbefore, h⟩
      · exact .inl ⟨a, by simp [ha], h⟩
      · exact .inr (.inl ⟨by simpa [he] using hl, h⟩)
      · exact .inr (.inr ⟨e :: before, a, after, rfl, by simpa [he] using hbefore, h⟩)

end Outcome

namespace Complex

theorem outcomeFrom_eq_accepted_iff {c : Compound} {left : List (Combinator × Compound)} {a : ε} :
    outcomeFrom t mode c left a = .accepted ↔
      c.holds t mode false a = true ∧ outcomeLeft t mode left a = .accepted := by
  unfold outcomeFrom
  split <;> simp_all

theorem outcomeFrom_eq_failsSubtree_iff {c : Compound} {left : List (Combinator × Compound)}
    {a : ε} :
    outcomeFrom t mode c left a = .failsSubtree ↔
      c.holds t mode false a = true ∧ outcomeLeft t mode left a = .failsSubtree := by
  unfold outcomeFrom
  split <;> simp_all

/-- Acceptance is a match. A failure for the subtree excludes every element that has no ancestor
beyond those of `e`: candidates of such an element are candidates of `e` that failed before, or have
themselves no ancestor beyond those of the candidate that decided. -/
theorem outcomeLeft_meaning (ht : t.Lawful) (left : List (Combinator × Compound)) (e : ε) :
    (outcomeLeft t mode left e = .accepted ↔ MatchesLeft t mode left e) ∧
      (outcomeLeft t mode left e = .failsSubtree →
        ∀ x, t.ancestors x <:+ t.ancestors e → ¬ MatchesLeft t mode left x) := by
  induction left generalizing e with
  | nil => simp [MatchesLeft]
  | cons head left ih =>
    obtain ⟨combinator, c⟩ := head
    have accepts {a : ε} : outcomeFrom t mode c left a = .accepted ↔
        c.holds t mode false a = true ∧ MatchesLeft t mode left a := by
      rw [outcomeFrom_eq_accepted_iff, (ih a).1]
    have matchesLeft {x : ε} : MatchesLeft t mode ((combinator, c) :: left) x ↔
        ∃ a ∈ combinator.candidates t x, outcomeFrom t mode c left a = .accepted := by
      simp only [MatchesLeft, accepts, Combinator.mem_candidates_iff ht]
    rw [outcomeLeft_cons]
    have hcases := Outcome.firstDecisive_cases (outcomeFrom t mode c left)
      (combinator.exhausted t e) (combinator.candidates t e)
    rcases hcases with ⟨a, ha, hacc, h⟩ | ⟨hlocal, h⟩ | ⟨before, a, after, hl, hb, hs, h⟩
    · rw [h]
      exact ⟨by simpa using matchesLeft.mpr ⟨a, ha, hacc⟩, by simp⟩
    · have none_of {x : ε} (hx : ∀ a ∈ combinator.candidates t x, a ∈ combinator.candidates t e) :
          ¬ MatchesLeft t mode ((combinator, c) :: left) x := by
        rw [matchesLeft]
        rintro ⟨a, ha, hacc⟩
        rw [hlocal a (hx a ha)] at hacc
        cases hacc
      rw [h]
      constructor
      · have := none_of (x := e) fun _ ha => ha
        cases combinator <;> simp [Combinator.exhausted, this]
        split <;> simp
      · intro hexhausted x hx
        exact none_of fun a ha =>
          combinator.candidates_subset_of_exhausted hexhausted hx ha
    · have none_of {x : ε} (hx : t.ancestors x <:+ t.ancestors e) :
          ¬ MatchesLeft t mode ((combinator, c) :: left) x := by
        rw [matchesLeft]
        rintro ⟨b, hbx, hacc⟩
        rcases combinator.candidate_cases ht hl hbx hx with hbefore | habove
        · rw [hb b hbefore] at hacc
          cases hacc
        · exact (ih a).2 (outcomeFrom_eq_failsSubtree_iff.mp hs).2 b habove (accepts.mp hacc).2
      rw [h]
      exact ⟨by simpa using none_of (List.suffix_refl _), fun _ x hx => none_of hx⟩

/-- The matcher accepts just the elements that a selector matches. -/
theorem outcome_eq_accepted_iff (ht : t.Lawful) {s : Complex} {e : ε} :
    s.outcome t mode e = .accepted ↔ s.Matches t mode e := by
  rw [matches_iff, ← (outcomeLeft_meaning ht s.left e).1, outcome]
  split <;> simp_all

/-- After a failure for the subtree the selector matches nothing around the element. -/
theorem not_matches_of_failsSubtree (ht : t.Lawful) {s : Complex} {e x : ε}
    (h : s.outcome t mode e = .failsSubtree) (hx : t.Around e x) : ¬ s.Matches t mode x := by
  rw [matches_iff]
  rintro ⟨-, hleft⟩
  rw [outcome] at h
  split at h
  · exact (outcomeLeft_meaning ht s.left e).2 h x (ht.ancestors_suffix_of_around hx) hleft
  · cases h

/-- Matching without a cache and without a filter decides what a selector means, and a failure for
the subtree excludes the element, its ancestors, and all siblings of these. -/
theorem match?_decides_meaning {κ : Type} [BEq κ] [Hashable κ] (ht : t.Lawful)
    (digest : Feature → κ) (mode : DocumentMode) (id : Option SelectorId) (s : Complex) (e : ε)
    (dependencies : Option DependencyTable) :
    let verdict := ((s.match? digest t mode none id e).run ⟨none, dependencies⟩).1
    (verdict.outcome = .accepted ↔ s.Matches t mode e) ∧
      (verdict.outcome = .failsSubtree → ∀ x, t.Around e x → ¬ s.Matches t mode x) := by
  intro verdict
  have hverdict : verdict = s.verdict (s.outcome t mode e) := by
    simp only [verdict, run_match?_of_uncached digest t mode id s e (m := ⟨none, dependencies⟩) rfl]
  rw [hverdict]
  exact ⟨outcome_eq_accepted_iff ht, fun h _ hx => not_matches_of_failsSubtree ht h hx⟩

/-- Neither `li > li` nor anything like it matches in a family, and the matcher may say so for all
of it at once. -/
theorem match?_decides_meaning_family :
    let t := (Relative.tree fun _ => .none).toElementTree
    let s : Complex := ⟨[.tag "li"], [(.child, [.tag "li"])]⟩
    t.Lawful ∧ ∀ mode, let verdict := ((s.match? id t mode none none Relative.younger).run .none).1
      (verdict.outcome = .accepted ↔ s.Matches t mode Relative.younger) ∧
        (verdict.outcome = .failsSubtree →
          ∀ x, t.Around Relative.younger x → ¬ s.Matches t mode x) :=
  have ht := (Relative.lawful_tree fun _ => .none).toLawful
  ⟨ht, fun mode => match?_decides_meaning ht id mode none _ _ none⟩

end Complex

end StyleEngine
