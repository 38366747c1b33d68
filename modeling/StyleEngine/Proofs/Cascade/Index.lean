import Mathlib.Data.List.Sort
import StyleEngine.Proofs.Cascade.Order
import StyleEngine.Proofs.Matching.Filter

/-!
# The index finds what it holds

An index that is built from sheets holds the selectors of all active rules, under numbers that tell
them apart as long as there are not too many. A selector that matches an element is filed under a
feature of the element or under none, so a lookup finds it, in document order.

## Main definitions

* `SheetSet.activeSelectors`: the selectors of the active rules, in document order.
* `SheetSet.Countable`: ids tell the selectors apart.

## Main statements

* `RuleIndex.selector?_build_eq_some_iff`: an id stands for the active selector with its numbers.
* `RuleIndex.selector?_build`: if ids tell the selectors apart, then that is the one that was filed
  under it.
* `RuleIndex.filter_lookup_build`: of the selectors that match, a lookup finds all and in order.
-/

namespace StyleEngine

/-- A selector of an active rule: the rule with its origin and its number among the active rules,
and the selector with its place in the rule. -/
structure ActiveSelector where
  origin : Origin
  rule : Rule
  number : Nat
  place : Nat
  selector : Complex

/-- A rule as an index keeps it under a number. -/
def Rule.indexed (rule : Rule) (origin : Origin) (number : Nat) : IndexedRule where
  origin := origin
  selectors := rule.selectors.toArray
  specificities := (rule.selectors.map Complex.specificity).toArray
  declarations := rule.declarations
  sourceOrder := UInt32.ofNat number

namespace ActiveSelector

def id (a : ActiveSelector) : SelectorId :=
  ⟨UInt32.ofNat a.number, UInt16.ofNat a.place⟩

/-- What an index keeps of the selector: its rule, the selector itself and its weight. -/
def kept (a : ActiveSelector) : IndexedRule × Complex × Specificity :=
  (a.rule.indexed a.origin a.number, a.selector, a.selector.specificity)

end ActiveSelector

namespace SheetSet

/-- The selectors of the active rules, rule by rule. -/
def activeSelectors (set : SheetSet) (m : Medium) : List ActiveSelector :=
  (RuleIndex.activeRules set m).zipIdx.flatMap fun ((origin, rule), number) =>
    rule.selectors.zipIdx.map fun (selector, place) => ⟨origin, rule, number, place, selector⟩

/-- There are fewer than `2 ^ 32` active rules, with at most `2 ^ 16` selectors each. -/
structure Countable (set : SheetSet) (m : Medium) : Prop where
  rules_lt : (RuleIndex.activeRules set m).length < UInt32.size
  selectors_le : ∀ entry ∈ RuleIndex.activeRules set m, entry.2.selectors.length ≤ UInt16.size

variable {set : SheetSet} {m : Medium}

theorem mem_activeSelectors_iff {a : ActiveSelector} :
    a ∈ set.activeSelectors m ↔
      (RuleIndex.activeRules set m)[a.number]? = some (a.origin, a.rule) ∧
        a.rule.selectors[a.place]? = some a.selector := by
  simp only [activeSelectors, List.mem_flatMap, List.mem_map, Prod.exists,
    List.mk_mem_zipIdx_iff_getElem?]
  constructor
  · rintro ⟨origin, rule, number, hrule, selector, place, hselector, rfl⟩
    exact ⟨hrule, hselector⟩
  · rintro ⟨hrule, hselector⟩
    exact ⟨_, _, _, hrule, _, _, hselector, rfl⟩

/-- The numbers of an active selector. -/
theorem Countable.weights_id (h : set.Countable m) {a : ActiveSelector}
    (ha : a ∈ set.activeSelectors m) : a.id.weights = [a.number, a.place] := by
  obtain ⟨hrule, hselector⟩ := mem_activeSelectors_iff.mp ha
  have hnumber : a.number < UInt32.size :=
    Nat.lt_trans (List.getElem?_eq_some_iff.mp hrule).1 h.rules_lt
  have hplace : a.place < UInt16.size :=
    Nat.lt_of_lt_of_le (List.getElem?_eq_some_iff.mp hselector).1
      (h.selectors_le _ (List.mem_of_getElem? hrule))
  have hrule' : (UInt32.ofNat a.number).toNat = a.number := UInt32.toNat_ofNat_of_lt hnumber
  have hplace' : (UInt16.ofNat a.place).toNat = a.place := UInt16.toNat_ofNat_of_lt hplace
  rw [ActiveSelector.id, SelectorId.weights, hrule', hplace']

/-- The active selectors stand in the order of their numbers. -/
theorem pairwise_activeSelectors :
    (set.activeSelectors m).Pairwise fun a b => [a.number, a.place] < [b.number, b.place] := by
  rw [activeSelectors, List.pairwise_flatMap]
  constructor
  · rintro ⟨⟨origin, rule⟩, number⟩ -
    refine List.pairwise_map.mpr ?_
    have h : rule.selectors.zipIdx.Pairwise fun x y => x.2 < y.2 :=
      List.pairwise_map.mp (List.zipIdx_map_snd 0 _ ▸ List.pairwise_lt_range')
    exact h.imp fun hlt => by simpa [List.cons_lt_cons_iff] using hlt
  · have h : (RuleIndex.activeRules set m).zipIdx.Pairwise fun x y => x.2 < y.2 :=
      List.pairwise_map.mp (List.zipIdx_map_snd 0 _ ▸ List.pairwise_lt_range')
    refine h.imp ?_
    rintro ⟨⟨origin, rule⟩, number⟩ ⟨⟨origin', rule'⟩, number'⟩ hlt a ha b hb
    obtain ⟨_, -, rfl⟩ := List.mem_map.mp ha
    obtain ⟨_, -, rfl⟩ := List.mem_map.mp hb
    exact List.cons_lt_cons_iff.mpr (.inl hlt)

end SheetSet

namespace RuleIndex

/-! ## Building an index -/

/-- Filing selectors puts the id of each behind those filed under the same feature. -/
theorem mem_file_iff (buckets : Std.HashMap (Option Feature) (Array SelectorId))
    (entries : List (SelectorId × Complex)) {f : Option Feature} {id : SelectorId} :
    id ∈ ((entries.foldl file buckets).getD f #[]).toList ↔
      id ∈ (buckets.getD f #[]).toList ∨
        ∃ entry ∈ entries, entry.1 = id ∧ entry.2.subject.filingFeature? = f := by
  induction entries generalizing buckets with
  | nil => simp
  | cons entry entries ih =>
    have hfile : id ∈ ((file buckets entry).getD f #[]).toList ↔
        id ∈ (buckets.getD f #[]).toList ∨
          entry.1 = id ∧ entry.2.subject.filingFeature? = f := by
      rw [file, Std.HashMap.getD_alter]
      split
      · next h =>
        obtain rfl := eq_of_beq h
        rw [← Std.HashMap.getD_eq_getD_getElem?]
        simp [eq_comm]
      · next h =>
        have hne : entry.2.subject.filingFeature? ≠ f := by simpa using h
        simp [hne]
    rw [List.foldl_cons, ih, hfile, or_assoc, List.exists_mem_cons_iff]

/-- The rules that an index holds after more were inserted. -/
theorem rules_foldl_insert (rules : List (Origin × Rule)) (index : RuleIndex) :
    (rules.foldl (fun index (origin, rule) => index.insert origin rule) index).rules.toList =
      index.rules.toList ++ (rules.zipIdx index.rules.size).map fun ((origin, rule), number) =>
        rule.indexed origin number := by
  induction rules generalizing index with
  | nil => simp
  | cons entry rules ih =>
    rw [List.foldl_cons, ih]
    simp [insert, Rule.indexed]

theorem mem_bucket_foldl_insert (rules : List (Origin × Rule)) (index : RuleIndex)
    {f : Option Feature} {id : SelectorId} :
    id ∈ (rules.foldl (fun index (origin, rule) => index.insert origin rule) index).bucket f ↔
      id ∈ index.bucket f ∨ ∃ entry ∈ rules.zipIdx index.rules.size,
        ∃ filed ∈ numbered entry.2 entry.1.2.selectors,
          filed.1 = id ∧ filed.2.subject.filingFeature? = f := by
  induction rules generalizing index with
  | nil => simp
  | cons entry rules ih =>
    rw [List.foldl_cons, ih, List.zipIdx_cons, List.exists_mem_cons_iff, ← or_assoc]
    refine or_congr ?_ (by simp [insert])
    exact mem_file_iff index.buckets (numbered index.rules.size entry.2.selectors)

variable {set : SheetSet} {m : Medium}

@[simp] theorem mode_build : (build set m).mode = set.mode := by
  have h (rules : List (Origin × Rule)) (index : RuleIndex) :
      (rules.foldl (fun index (origin, rule) => index.insert origin rule) index).mode =
        index.mode := by
    induction rules generalizing index with
    | nil => rfl
    | cons entry rules ih => exact ih _
  exact h _ _

/-- A selector is filed in an index if it is an active one, and under the feature of its subject. -/
theorem mem_bucket_build_iff {f : Option Feature} {id : SelectorId} :
    id ∈ (build set m).bucket f ↔
      ∃ a ∈ set.activeSelectors m, a.id = id ∧ a.selector.subject.filingFeature? = f := by
  have hempty : id ∉ (empty set.mode).bucket f := by simp [empty, bucket]
  rw [build, mem_bucket_foldl_insert]
  simp only [hempty, false_or, SheetSet.activeSelectors, List.mem_flatMap, numbered, List.mem_map]
  constructor
  · rintro ⟨entry, hentry, filed, ⟨selector, hselector, rfl⟩, rfl, hf⟩
    exact ⟨_, ⟨entry, hentry, selector, hselector, rfl⟩, rfl, hf⟩
  · rintro ⟨a, ⟨entry, hentry, selector, hselector, rfl⟩, rfl, hf⟩
    exact ⟨entry, hentry, _, ⟨selector, hselector, rfl⟩, rfl, hf⟩

/-- The rules of the index are the active ones, each under its number. -/
theorem getElem?_rules_build (n : Nat) : (build set m).rules[n]? =
    (activeRules set m)[n]?.map fun entry => entry.2.indexed entry.1 n := by
  rw [← Array.getElem?_toList, build, rules_foldl_insert]
  simp [empty, Function.comp_def]

/-- Behind an id stands the active selector with its numbers, whatever was filed under it. -/
theorem selector?_build_eq_some_iff {id : SelectorId}
    {found : IndexedRule × Complex × Specificity} :
    (build set m).selector? id = some found ↔
      ∃ a ∈ set.activeSelectors m, a.number = id.rule.toNat ∧ a.place = id.position.toNat ∧
        found = a.kept := by
  rw [selector?, getElem?_rules_build]
  constructor
  · intro h
    obtain ⟨rule, hrule, h⟩ := Option.bind_eq_some_iff.mp h
    obtain ⟨selector, hselector, h⟩ := Option.bind_eq_some_iff.mp h
    obtain ⟨⟨origin, rule⟩, hentry, rfl⟩ := Option.map_eq_some_iff.mp hrule
    have hselector : rule.selectors[id.position.toNat]? = some selector := by
      simpa [Rule.indexed] using hselector
    refine ⟨⟨origin, rule, _, _, selector⟩,
      SheetSet.mem_activeSelectors_iff.mpr ⟨hentry, hselector⟩, rfl, rfl, ?_⟩
    rw [← Option.some.inj h]
    simp [ActiveSelector.kept, Rule.indexed, hselector]
  · rintro ⟨a, ha, hnumber, hplace, rfl⟩
    obtain ⟨hrule, hselector⟩ := SheetSet.mem_activeSelectors_iff.mp ha
    rw [← hnumber, ← hplace, hrule]
    simp [ActiveSelector.kept, Rule.indexed, hselector]

/-- Ids that tell the selectors apart stand for those under which they were filed. -/
theorem selector?_build (h : set.Countable m) {a : ActiveSelector}
    (ha : a ∈ set.activeSelectors m) : (build set m).selector? a.id = some a.kept := by
  have hweights := h.weights_id ha
  simp only [SelectorId.weights, List.cons.injEq, and_true] at hweights
  exact selector?_build_eq_some_iff.mpr ⟨a, ha, hweights.1.symm, hweights.2.symm, rfl⟩

/-- The rule behind an id is one of the active rules, up to its numbers, and has the selector. -/
theorem exists_of_selector?_build {id : SelectorId} {rule : IndexedRule} {selector : Complex}
    {specificity : Specificity}
    (h : (build set m).selector? id = some (rule, selector, specificity)) :
    ∃ entry ∈ activeRules set m,
      entry.2.declarations = rule.declarations ∧ selector ∈ entry.2.selectors := by
  obtain ⟨a, ha, -, -, hfound⟩ := selector?_build_eq_some_iff.mp h
  obtain ⟨hrule, hselector⟩ := SheetSet.mem_activeSelectors_iff.mp ha
  obtain ⟨rfl, rfl, -⟩ : rule = a.rule.indexed a.origin a.number ∧ selector = a.selector ∧ _ := by
    simpa only [ActiveSelector.kept, Prod.mk.injEq] using hfound
  exact ⟨_, List.mem_of_getElem? hrule, rfl, List.mem_of_getElem? hselector⟩

/-! ## Looking up an element -/

variable {ε : Type}

/-- A lookup finds the selectors that are filed under the features of an element or under none,
each once and in order. -/
theorem pairwise_lookup (index : RuleIndex) (t : ElementTree ε) (e : ε) :
    (index.lookup t e).Pairwise fun a b => a.weights < b.weights := by
  let le (a b : SelectorId) : Bool := (compare a b).isLE
  have le_eq (a b : SelectorId) : le a b = (compare a.weights b.weights).isLE := by
    simp only [le, SelectorId.compare_eq_compare_weights]
  have le_iff (a b : SelectorId) : le a b = true ↔ ¬ b.weights < a.weights := by
    rw [le_eq, isLE_compare_iff]
  have trans (a b c : SelectorId) (hab : le a b = true) (hbc : le b c = true) : le a c = true := by
    rw [le_eq] at hab hbc ⊢
    exact Std.TransCmp.isLE_trans hab hbc
  have total (a b : SelectorId) : (le a b || le b a) = true := by
    rw [le_eq, le_eq]
    exact isLE_compare_total _ _
  have antisymm {a b : SelectorId} (hab : le a b = true) (hba : le b a = true) : a = b :=
    SelectorId.eq_of_weights (List.le_antisymm ((le_iff a b).mp hab) ((le_iff b a).mp hba))
  refine (pairwise_eraseReps antisymm (List.pairwise_mergeSort trans total _)).imp ?_
  rintro a b ⟨hle, hne⟩
  by_cases hlt : a.weights < b.weights
  · exact hlt
  · exact absurd (SelectorId.eq_of_weights (List.le_antisymm ((le_iff a b).mp hle) hlt)) hne

theorem mem_lookup_iff {index : RuleIndex} {t : ElementTree ε} {e : ε} {id : SelectorId} :
    id ∈ index.lookup t e ↔
      id ∈ index.bucket none ∨ ∃ x ∈ Feature.ofElement t e, id ∈ index.bucket (some x.folded) := by
  simp [lookup, mem_eraseReps, List.mem_flatMap]

/-- A compound that holds at an element is filed under a feature of the element, if under any. -/
theorem filingFeature?_of_holds {t : ElementTree ε} {mode : DocumentMode} {isSubject : Bool}
    {c : Compound} {e : ε} (hc : c.holds t mode isSubject e = true) {f : Feature}
    (hf : c.filingFeature? = some f) : ∃ x ∈ Feature.ofElement t e, x.folded = f := by
  have found {y : Feature} (hy : y ∈ Feature.ofCompound c) (hf : y.folded = f) :
      ∃ x ∈ Feature.ofElement t e, x.folded = f := by
    obtain ⟨x, hx, hxy⟩ := List.mem_map.mp (Feature.folded_mem_of_holds hc hy)
    exact ⟨x, hx, hxy.trans hf⟩
  unfold Compound.filingFeature? at hf
  split at hf
  · next value hid =>
    exact found (y := .id value) (by simp [Feature.ofCompound, hid]) (Option.some.inj hf)
  · next name _ _ hclasses =>
    exact found (y := .className name) (by simp [Feature.ofCompound, hclasses])
      (Option.some.inj hf)
  · next name _ _ htag =>
    exact found (y := .tag name) (by simp [Feature.ofCompound, htag]) (Option.some.inj hf)
  · cases hf

/-- The id of an active selector is found for every element at which its subject holds. -/
theorem id_mem_lookup_build {t : ElementTree ε} {mode : DocumentMode} {e : ε} {a : ActiveSelector}
    (ha : a ∈ set.activeSelectors m) (hsubject : a.selector.subject.holds t mode true e = true) :
    a.id ∈ (build set m).lookup t e := by
  simp only [mem_lookup_iff, mem_bucket_build_iff]
  cases hfeature : a.selector.subject.filingFeature? with
  | none => exact .inl ⟨a, ha, rfl, hfeature⟩
  | some f =>
    obtain ⟨x, hx, rfl⟩ := filingFeature?_of_holds hsubject hfeature
    exact .inr ⟨x, hx, a, ha, rfl, hfeature⟩

/-- Every id that a lookup finds is that of an active selector. -/
theorem exists_of_mem_lookup_build {t : ElementTree ε} {e : ε} {id : SelectorId}
    (h : id ∈ (build set m).lookup t e) : ∃ a ∈ set.activeSelectors m, a.id = id := by
  simp only [mem_lookup_iff, mem_bucket_build_iff] at h
  obtain ⟨a, ha, hid, -⟩ | ⟨x, -, a, ha, hid, -⟩ := h
  · exact ⟨a, ha, hid⟩
  · exact ⟨a, ha, hid⟩

/-- The matching selectors that a lookup finds are all active selectors that match. -/
theorem filter_lookup_build (h : set.Countable m) (t : ElementTree ε) (mode : DocumentMode) (e : ε)
    {p : SelectorId → Bool} {q : ActiveSelector → Bool}
    (hp : ∀ a ∈ set.activeSelectors m, p a.id = q a)
    (hq : ∀ a ∈ set.activeSelectors m, q a = true →
      a.selector.subject.holds t mode true e = true) :
    ((build set m).lookup t e).filter p = ((set.activeSelectors m).filter q).map (·.id) := by
  have irrefl : Std.Irrefl fun a b : SelectorId => a.weights < b.weights :=
    ⟨fun a => List.lt_irrefl a.weights⟩
  have antisymm : Std.Antisymm fun a b : SelectorId => a.weights < b.weights :=
    ⟨fun a b hab hba => absurd hba (List.lt_asymm hab)⟩
  refine List.Pairwise.eq_of_mem_iff (r := fun a b => a.weights < b.weights)
    ((pairwise_lookup _ t e).filter p) ?_ ?_
  · refine List.pairwise_map.mpr ((SheetSet.pairwise_activeSelectors.filter q).imp_of_mem ?_)
    intro a b ha hb hlt
    rwa [h.weights_id (List.mem_of_mem_filter ha), h.weights_id (List.mem_of_mem_filter hb)]
  · intro id
    simp only [List.mem_filter, List.mem_map]
    constructor
    · rintro ⟨hfound, hid⟩
      obtain ⟨a, ha, rfl⟩ := exists_of_mem_lookup_build hfound
      exact ⟨a, ⟨ha, hp a ha ▸ hid⟩, rfl⟩
    · rintro ⟨a, ⟨ha, hqa⟩, rfl⟩
      exact ⟨id_mem_lookup_build ha (hq a ha hqa), (hp a ha).trans hqa⟩

end RuleIndex

end StyleEngine
