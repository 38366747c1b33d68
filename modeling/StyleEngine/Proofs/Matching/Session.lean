import StyleEngine.Proofs.Cascade.Collect
import StyleEngine.Proofs.Matching.Epoch

/-!
# Questions of one pass

In a pass the matcher is asked about many selectors and many elements, over one cache. The cache
may come from earlier passes over other trees, with other selectors under the same ids; once the
pass has begun, none of that can be read. So each question gets the answer that it would get alone.
A filter may turn one failure into another, and it refuses only what matches neither the element nor
any ancestor of it.

## Main definitions

* `MatchCache.Used`: a cache after any use.
* `Question`: a selector to match at an element, with or without the filter of the element.

## Main statements

* `MatchScope.Serves.mapM`: computations that serve one by one serve in a row.
* `MatchCache.Used.answers_agree`: the questions of a pass are answered as by plain matching.
-/

namespace StyleEngine

variable {ε κ : Type} [BEq κ] [Hashable κ]

/-! ## Caches -/

/-- A cache after any use. What was kept in it may be about any trees and any selectors. -/
inductive MatchCache.Used : MatchCache → Prop
  | empty : Used .empty
  | beginPass {c : MatchCache} : Used c → Used c.beginPass
  | set {c : MatchCache} (e : ElementKey) (id : SelectorId) (place : Nat) (outcome : Outcome) :
    Used c → Used (c.set e id place outcome)
  | get {c : MatchCache} (e : ElementKey) (id : SelectorId) (place : Nat) :
    Used c → Used (c.get e id place).2
  | clear {c : MatchCache} : Used c → Used c.clear

theorem MatchCache.Used.dated {c : MatchCache} (h : c.Used) : c.Dated := by
  induction h with
  | empty => exact dated_empty
  | beginPass _ ih => exact ih.beginPass
  | set e id place outcome _ ih => exact ih.set e id place outcome
  | get e id place _ ih => exact ih.get e id place
  | clear _ _ => exact dated_clear _

/-! ## Questions -/

/-- The verdict for a selector without a cache, a filter and notes. -/
def Complex.plainVerdict (t : ElementTree ε) (mode : DocumentMode) (s : Complex) (e : ε) :
    Verdict :=
  ((s.match? id t mode none none e).run .none).1

theorem Complex.plainVerdict_eq (t : ElementTree ε) (mode : DocumentMode) (s : Complex) (e : ε) :
    s.plainVerdict t mode e = s.verdict (s.outcome t mode e) := by
  rw [plainVerdict, run_match?_of_uncached id t mode none s e rfl]

/-- Whether a selector matches an element. Under an id, answers for its compounds are kept. -/
structure Question (ε : Type) where
  element : ε
  selector : Complex
  id? : Option SelectorId
  /-- Whether the selector is held against the features of the ancestors first. -/
  filtered : Bool

namespace Question

/-- The filter that a question is put with. -/
def filter? (digest : Feature → κ) (t : ElementTree ε) (q : Question ε) :
    Option (AncestorFilter κ) :=
  if q.filtered then some (.ofAncestors digest t q.element) else none

def ask (digest : Feature → κ) (t : ElementTree ε) (mode : DocumentMode) (q : Question ε) :
    MatchM Verdict :=
  q.selector.match? digest t mode (q.filter? digest t) q.id? q.element

/-- An answer that tells the same as plain matching. Without a filter it is the same verdict. -/
structure Agrees (t : ElementTree ε) (mode : DocumentMode) (q : Question ε) (v : Verdict) :
    Prop where
  isMatch : v.isMatch = (q.selector.plainVerdict t mode q.element).isMatch
  pseudo : v.pseudo? = (q.selector.plainVerdict t mode q.element).pseudo?
  verdict : q.filtered = false → v = q.selector.plainVerdict t mode q.element

variable {t : ElementTree ε} {mode : DocumentMode} {q : Question ε}

/-- What a filter may do to an outcome does not show in an accepted or refused verdict. -/
theorem agrees_verdict [LawfulBEq κ] (ht : t.Lawful) (digest : Feature → κ) (mode : DocumentMode)
    (q : Question ε) :
    q.Agrees t mode (q.selector.verdict
      (q.selector.filteredOutcome digest (q.filter? digest t) t mode q.element)) := by
  have htruthful : AncestorFilter.Truthful digest t (q.filter? digest t) q.element := by
    intro f hf
    unfold filter? at hf
    split at hf
    · obtain rfl := Option.some.inj hf
      exact ⟨ht, AncestorFilter.counts_ofAncestors digest t q.element⟩
    · cases hf
  have hsame := Complex.isMatch_filteredOutcome htruthful mode q.selector
  refine ⟨?_, ?_, fun hplain => ?_⟩
  · rw [Complex.plainVerdict_eq]
    exact hsame
  · rw [Complex.plainVerdict_eq]
    simp only [Complex.verdict, hsame]
  · rw [Complex.plainVerdict_eq, filter?, hplain]
    rfl

end Question

/-! ## A row of questions -/

/-- Computations that serve one by one serve in a row. -/
theorem MatchScope.Serves.mapM {σ : MatchScope ε} {α β : Type} {f : α → MatchM β}
    {l : List α} {g : α → β} {readings : α → Readings ε}
    (h : ∀ a ∈ l, σ.Serves (f a) (g a) (readings a)) :
    σ.Serves (l.mapM f) (l.map g) (l.flatMap readings) := by
  induction l with
  | nil => exact serves_pure []
  | cons a l ih =>
    rw [List.mapM_cons, List.map_cons, List.flatMap_cons]
    have hl := ih fun b hb => h b (List.mem_cons_of_mem a hb)
    exact (h a List.mem_cons_self).bind (hl.map (g a :: ·))

/-- The memory at the start of a pass is sound: nothing can be read. -/
theorem MatchCache.Dated.sound_beginPass {σ : MatchScope ε} {c : MatchCache} (hc : c.Dated)
    (hkeys : σ.tree.KeysDistinct) (dependencies : Option DependencyTable) :
    σ.Sound ⟨some c.beginPass, dependencies⟩ where
  eq_of_key _ _ _ _ _ hkey := hkeys hkey
  answers := by
    rintro cache ⟨⟩ k outcome hk
    exact absurd ((hc.current?_beginPass k).symm.trans hk) nofun

/-- What the filter of `e` refuses matches neither `e` nor an ancestor of `e`. -/
theorem AncestorFilter.not_matches_of_refused [LawfulBEq κ] {t : ElementTree ε} (ht : t.Lawful)
    {digest : Feature → κ} {e a : ε} {s : Complex}
    (hrefused : (ofAncestors digest t e).mayMatch digest s = false) (ha : a ∈ e :: t.ancestors e)
    (mode : DocumentMode) : ¬s.Matches t mode a := by
  intro hmatches
  have hsubset : t.ancestors a ⊆ t.ancestors e := by
    rcases List.mem_cons.mp ha with rfl | ha
    · exact List.Subset.refl _
    · exact (ht.ancestors_suffix ha).subset
  have hl : ∀ b ∈ t.ancestors a, keys digest t b ⊆ ancestorKeys digest t e :=
    fun b hb _ hk => List.mem_flatMap.mpr ⟨b, hsubset hb, hk⟩
  have hpasses : (ofAncestors digest t e).mayMatch digest s = true :=
    (counts_ofAncestors digest t e).mayMatch_left ht hl (Complex.matches_iff.mp hmatches).2
  rw [hrefused] at hpasses
  cases hpasses

/-- Whatever a cache was used for before, in a new pass every question is answered as by plain
matching, in any order and however often it is put. What a filter refuses, plain matching accepts
neither for the element nor for its ancestors. -/
theorem MatchCache.Used.answers_agree [LawfulBEq κ] {t : ElementTree ε} (ht : t.Lawful)
    (hkeys : t.KeysDistinct) (digest : Feature → κ) (mode : DocumentMode) {c : MatchCache}
    (hc : c.Used) (dependencies : Option DependencyTable) (select : SelectorId → Complex)
    {qs : List (Question ε)} (hqs : ∀ q ∈ qs, ∀ i ∈ q.id?, select i = q.selector) :
    List.Forall₂ (Question.Agrees t mode) qs
        ((qs.mapM (Question.ask digest t mode)).run ⟨some c.beginPass, dependencies⟩).1 ∧
      ∀ (e : ε) (s : Complex), (AncestorFilter.ofAncestors digest t e).mayMatch digest s = false →
        ∀ a ∈ e :: t.ancestors e, (s.plainVerdict t mode a).outcome ≠ .accepted := by
  let σ : MatchScope ε :=
    { tree := t
      mode := mode
      select := fun i => some (select i)
      seen := fun _ => True
      seen_candidate := fun _ _ => trivial }
  constructor
  · have hserves (q : Question ε) (hq : q ∈ qs) :=
      σ.serves_match? (fun i hi => congrArg some (hqs q hq i hi)) (e := q.element) trivial digest
        (q.filter? digest t)
    have hanswers := (MatchScope.Serves.mapM hserves _
      (hc.dated.sound_beginPass hkeys dependencies)).1
    have hrun : ((qs.mapM (Question.ask digest t mode)).run ⟨some c.beginPass, dependencies⟩).1 =
      qs.map fun q => q.selector.verdict
        (q.selector.filteredOutcome digest (q.filter? digest t) t mode q.element) := hanswers
    rw [hrun, List.forall₂_map_right_iff]
    exact List.forall₂_same.mpr fun q _ => Question.agrees_verdict ht digest mode q
  · intro e s hrefused a ha haccepted
    rw [Complex.plainVerdict_eq] at haccepted
    exact AncestorFilter.not_matches_of_refused ht hrefused ha mode
      ((Complex.outcome_eq_accepted_iff ht).mp haccepted)

/-- In a family, over a cache with a wrong answer from an earlier pass: the younger child is asked
about twice, with a filter and without, and the elder child about another selector. -/
theorem MatchCache.Used.answers_agree_family :
    let t := (Relative.tree fun _ => .none).toElementTree
    let first : Complex := ⟨[.tag "li"], [(.child, [.tag "ul"])]⟩
    let second : Complex := ⟨[.tag "li"], [(.adjacentSibling, [.tag "li"]), (.child, [.tag "ol"])]⟩
    let select (i : SelectorId) : Complex := if i.position = 0 then first else second
    let c := MatchCache.empty.beginPass.set 0 ⟨0, 0⟩ 1 .failsLocal
    let qs : List (Question Relative) :=
      [⟨.younger, first, some ⟨0, 0⟩, true⟩, ⟨.younger, first, some ⟨0, 0⟩, false⟩,
        ⟨.elder, second, some ⟨0, 1⟩, true⟩]
    t.Lawful ∧ t.KeysDistinct ∧ c.Used ∧ (∀ q ∈ qs, ∀ i ∈ q.id?, select i = q.selector) ∧
      List.Forall₂ (Question.Agrees t .quirks) qs
          ((qs.mapM (Question.ask id t .quirks)).run ⟨some c.beginPass, some .empty⟩).1 ∧
        ∀ (e : Relative) (s : Complex), (AncestorFilter.ofAncestors id t e).mayMatch id s = false →
          ∀ a ∈ e :: t.ancestors e, (s.plainVerdict t .quirks a).outcome ≠ .accepted := by
  intro t first second select c qs
  have ht : t.Lawful := (Relative.lawful_tree _).toLawful
  have hkeys : t.KeysDistinct := Relative.keysDistinct_tree _
  have hc : c.Used := .set 0 ⟨0, 0⟩ 1 .failsLocal (.beginPass .empty)
  have hqs : ∀ q ∈ qs, ∀ i ∈ q.id?, select i = q.selector := by
    simp [qs, select]
  exact ⟨ht, hkeys, hc, hqs, hc.answers_agree ht hkeys id .quirks (some .empty) select hqs⟩

end StyleEngine
