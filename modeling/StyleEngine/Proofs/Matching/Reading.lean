import StyleEngine.Proofs.Cascade.Collect
import StyleEngine.Proofs.Tree.Branch

/-!
# What readings are of

Matching at an element notes readings of elements that it may look at, and of no other. Matching in
a region, which is closed under looking, therefore stays inside: what was remembered of the region
stays sound when the notes of an element outside are dropped.

## Main definitions

* `StyledTree.Region`: a set of elements closed under `ElementTree.Reaches`.

## Main statements

* `RuleIndex.reaches_of_mem_heard`: what collecting notes is of elements that it may look at.
* `StyledTree.Region.sound_forget`: notes of elements outside a region can be dropped.
-/

namespace StyleEngine

variable {ε : Type}

/-! ## Readings of tests -/

variable {t : ElementTree ε} {mode : DocumentMode} {e : ε} {r : ε × List DependencyKind}

theorem ElementTree.reaches_candidate {combinator : Combinator} {x : ε}
    (h : x ∈ combinator.candidates t e) : t.Reaches e x := by
  cases combinator with
  | descendant => exact reaches_of_mem_ancestors h
  | child => exact reaches_of_parent? (Option.mem_toList.mp h)
  | adjacentSibling =>
    exact reaches_of_mem_preceding (List.mem_of_head? (Option.mem_toList.mp h))
  | generalSibling => exact reaches_of_mem_preceding h

theorem ElementTree.reaches_of_noteParent {kinds : List DependencyKind}
    (h : r ∈ (t.parent? e).toList.map fun p => (p, kinds)) : t.Reaches e r.1 := by
  obtain ⟨p, hp, rfl⟩ := List.mem_map.mp h
  exact reaches_of_parent? (Option.mem_toList.mp hp)

theorem PseudoClass.reaches_of_mem_readings {p : PseudoClass} (h : r ∈ p.readings t e) :
    t.Reaches e r.1 := by
  have single {kinds : List DependencyKind} (h : r ∈ [(e, kinds)]) : t.Reaches e r.1 := by
    rw [List.mem_singleton.mp h]
    exact ElementTree.reaches_self
  cases p with
  | root | lang => simp [readings] at h
  | empty | focus | hover | active | link | visited | enabled | disabled | checked | target =>
    exact single h
  | _ => exact ElementTree.reaches_of_noteParent h

mutual
theorem Simple.reaches_of_mem_readings {s : Simple} (h : r ∈ s.readings t mode e) :
    t.Reaches e r.1 := by
  match s with
  | .pseudoClass p =>
    rw [Simple.readings] at h
    exact p.reaches_of_mem_readings h
  | .negation inner =>
    rw [Simple.readings] at h
    exact Compound.reaches_of_mem_readingsAll h
  | .universal | .tag _ | .id _ | .className _ | .attribute _ | .pseudoElement _ =>
    simp only [Simple.readings, List.not_mem_nil] at h
theorem Compound.reaches_of_mem_readingsAll {isSubject : Bool} {whole : Compound}
    {rest : List Simple} (h : r ∈ Compound.readingsAll t mode isSubject whole e rest) :
    t.Reaches e r.1 := by
  match rest with
  | [] =>
    simp only [Compound.readingsAll, List.not_mem_nil] at h
  | s :: rest =>
    rw [Compound.readingsAll] at h
    rcases List.mem_append.mp h with h | h
    · exact Simple.reaches_of_mem_readings h
    · split at h
      · exact Compound.reaches_of_mem_readingsAll h
      · simp at h
end

namespace Complex

theorem mem_of_mem_tried {outcome : ε → Outcome} {l : List ε} {a : ε}
    (h : a ∈ Outcome.tried outcome l) : a ∈ l := by
  induction l with
  | nil => simp [Outcome.tried] at h
  | cons b l ih =>
    rw [Outcome.tried] at h
    rcases List.mem_cons.mp h with rfl | h
    · exact List.mem_cons_self
    · split at h
      · exact List.mem_cons_of_mem _ (ih h)
      · simp at h

variable (ht : t.Lawful)

include ht

theorem reaches_of_mem_readingsLeft {left : List (Combinator × Compound)}
    (h : r ∈ readingsLeft t mode left e) : t.Reaches e r.1 := by
  induction left generalizing e with
  | nil => simp [readingsLeft] at h
  | cons head left ih =>
    obtain ⟨combinator, c⟩ := head
    rw [readingsLeft_cons] at h
    rcases List.mem_append.mp h with h | h
    · cases combinator with
      | descendant | child => simp [Combinator.readings] at h
      | adjacentSibling | generalSibling => exact ElementTree.reaches_of_noteParent h
    · obtain ⟨a, ha, h⟩ := List.mem_flatMap.mp h
      refine ht.reaches_trans (ElementTree.reaches_candidate (mem_of_mem_tried ha)) ?_
      rw [readingsFrom] at h
      rcases List.mem_append.mp h with h | h
      · exact Compound.reaches_of_mem_readingsAll h
      · split at h
        · exact ih h
        · simp at h

theorem reaches_of_mem_readingsFrom {c : Compound} {left : List (Combinator × Compound)}
    (h : r ∈ readingsFrom t mode c left e) : t.Reaches e r.1 := by
  rw [readingsFrom] at h
  rcases List.mem_append.mp h with h | h
  · exact Compound.reaches_of_mem_readingsAll h
  · split at h
    · exact reaches_of_mem_readingsLeft ht h
    · simp at h

theorem reaches_of_mem_readings {s : Complex} (h : r ∈ s.readings t mode e) :
    t.Reaches e r.1 := by
  rw [readings] at h
  rcases List.mem_append.mp h with h | h
  · exact Compound.reaches_of_mem_readingsAll h
  · split at h
    · exact reaches_of_mem_readingsLeft ht h
    · simp at h

end Complex

/-- What collecting notes is of elements that may be looked at. -/
theorem RuleIndex.reaches_of_mem_heard {κ : Type} [BEq κ] [Hashable κ] (ht : t.Lawful)
    {digest : Feature → κ} {filter : Option (AncestorFilter κ)} {index : RuleIndex}
    (h : r ∈ index.heard digest filter t e) : t.Reaches e r.1 := by
  obtain ⟨id, -, h⟩ := List.mem_flatMap.mp h
  unfold heardOf at h
  cases hid : index.selector? id with
  | none =>
    rw [hid] at h
    simp at h
  | some found =>
    obtain ⟨rule, selector, specificity⟩ := found
    rw [hid] at h
    simp only [Option.elim_some, Complex.filteredReadings] at h
    split at h
    · exact Complex.reaches_of_mem_readings ht h
    · simp at h

/-! ## Regions -/

theorem DependencyTable.Has.forget {table : DependencyTable} {rs : Readings ε} {key : ElementKey}
    (h : table.Has t rs) (hkey : ∀ r ∈ rs, t.key r.1 ≠ key) : (table.forget key).Has t rs := by
  intro r hr kind hkind
  rw [kinds_forget, if_neg (Ne.symm (hkey r hr))]
  exact h r hr kind hkind

namespace StyledTree

/-- Elements below `root` that look at each other only. -/
structure Region (t : StyledTree ε) (root : ε) where
  mem : ε → Prop
  mem_elements : ∀ {x}, mem x → x ∈ (t.branch root).elements
  closed : ∀ {x y}, mem x → t.Reaches x y → mem y

namespace Region

variable {t : StyledTree ε} {root : ε} {index : RuleIndex} {m : MatchMemory}

/-- The scope of matching in a region. -/
def scope (region : t.Region root) (index : RuleIndex) : MatchScope ε :=
  index.scope t.toElementTree region.mem fun he ha =>
    region.closed he (ElementTree.reaches_candidate ha)

/-- The root alone is a region. -/
def top (ht : t.Rooted root) : t.Region root where
  mem x := x = root
  mem_elements h := h ▸ ht.mem_root
  closed := by
    rintro x y rfl ⟨a, ha, hy⟩
    rw [ht.ancestors_root, List.mem_singleton] at ha
    subst ha
    rwa [ht.preceding_root, List.mem_singleton] at hy

/-- All elements but the strict descendants of `r` are a region. -/
def outside (ht : t.Rooted root) (r : ε) : t.Region root where
  mem x := x ∈ (t.branch root).elements ∧ (x ∈ (t.branch r).elements → x = r)
  mem_elements h := h.1
  closed := by
    intro x y hx hy
    refine ⟨ht.mem_of_reaches hx.1 hy, fun hr => ?_⟩
    refine Classical.byContradiction fun hne => ?_
    obtain ⟨hmem, hxr⟩ := ht.mem_branch_of_reaches hx.1 hy hr hne
    exact hxr (hx.2 hmem)

/-- A region with a child of one of its elements, if it holds the siblings before the child. -/
def insert (region : t.Region root) {p c : ε} (hc : c ∈ (t.branch root).elements)
    (hup : t.ancestors c = p :: t.ancestors p) (hp : region.mem p)
    (hpreceding : ∀ s ∈ t.preceding c, region.mem s) : t.Region root where
  mem x := x = c ∨ region.mem x
  mem_elements h := h.elim (fun h => h ▸ hc) region.mem_elements
  closed := by
    rintro x y (rfl | hx) hy
    · rcases ElementTree.reaches_below hup hy with hy | hy
      · exact (List.mem_cons.mp hy).imp id (hpreceding y)
      · exact .inr (region.closed hp hy)
    · exact .inr (region.closed hx hy)

theorem serves_collect {κ : Type} [BEq κ] [LawfulBEq κ] [Hashable κ] {digest : Feature → κ}
    {filter : Option (AncestorFilter κ)} {region : t.Region root} {e : ε}
    (hfilter : AncestorFilter.Truthful digest t.toElementTree filter e) (he : region.mem e) :
    (region.scope index).Serves (index.collect digest filter t e) (index.gather t e)
      (index.heard digest filter t.toElementTree e) :=
  RuleIndex.serves_collect (fun he ha => region.closed he (ElementTree.reaches_candidate ha))
    hfilter he

/-- What is sound for a region is sound for a greater one. -/
theorem sound_mono (ht : t.Rooted root) {region region' : t.Region root}
    (h : ∀ {x}, region.mem x → region'.mem x) (hm : (region.scope index).Sound m) :
    (region'.scope index).Sound m where
  eq_of_key _ _ _ ha hb hkey :=
    ht.key_injective (region'.mem_elements ha) (region'.mem_elements hb) hkey
  answers cache hc k outcome hk := by
    obtain ⟨a, before, combinator, c, left, s, htrue⟩ := hm.answers cache hc k outcome hk
    exact ⟨a, before, combinator, c, left, s, { htrue with seen := h htrue.seen }⟩

/-- Notes of an element outside a region are not needed in it. -/
theorem sound_forget (ht : t.Lawful) {region : t.Region root} {cache : Option MatchCache}
    {table : DependencyTable} {key : ElementKey} (hkey : ∀ x, region.mem x → t.key x ≠ key)
    (hm : (region.scope index).Sound ⟨cache, some table⟩) :
    (region.scope index).Sound ⟨cache, some (table.forget key)⟩ where
  eq_of_key := hm.eq_of_key
  answers cache hc k outcome hk := by
    obtain ⟨a, before, combinator, c, left, s, htrue⟩ := hm.answers cache hc k outcome hk
    refine ⟨a, before, combinator, c, left, s, { htrue with noted := ?_ }⟩
    intro table' htable'
    obtain rfl := Option.some.inj htable'
    refine (htrue.noted table rfl).forget fun r hr => hkey r.1 (region.closed htrue.seen ?_)
    exact Complex.reaches_of_mem_readingsFrom ht.toLawful hr

end Region

end StyledTree

end StyleEngine
