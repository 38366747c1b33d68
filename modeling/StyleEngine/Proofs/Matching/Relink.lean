import StyleEngine.Proofs.Matching.Congruence
import StyleEngine.Proofs.Tree.Relink

/-!
# Matching after a change of children

Matching reads the children of an element only through notes about the structure of that element.
For elements outside its branch no such note is made, except where a selector asks an element to be
empty and then goes on to its siblings.

## Main definitions

* `Overlooks`: a reading that is not one of the structure of an element.
* `Complex.asksEmptyBeside`: whether a selector finds its subject beside an element that is to be
  empty.

## Main statements

* `StyledTree.Relinked.agrees`: trees that differ in the children of one element agree for readings
  that overlook it.
* `RuleIndex.overlooks_of_mem_heard`: what is noted for elements outside the branch overlooks it.
-/

namespace StyleEngine

variable {ε : Type}

/-- Whether a reading is not one of the structure of `p`. -/
def Overlooks (p : ε) (r : ε × List DependencyKind) : Prop :=
  r.1 = p → .structural ∉ r.2 ∧ .backwardsStructural ∉ r.2

/-! ## Trees that differ in the children of one element -/

namespace StyledTree

variable {t t' : StyledTree ε} {root p x : ε}

/-- What notes the structure of its parent is no child of an element that is overlooked. -/
theorem parent?_ne_of_overlooks {kinds : List DependencyKind}
    (hkinds : .structural ∈ kinds ∨ .backwardsStructural ∈ kinds)
    (h : ∀ r ∈ (t.parent? x).toList.map fun q => (q, kinds), Overlooks p r) :
    t.parent? x ≠ some p := by
  intro hp
  obtain ⟨hforwards, hbackwards⟩ := h (p, kinds) (by simp [hp]) rfl
  exact hkinds.elim hforwards hbackwards

section Relinked

variable (ht : t.Rooted root) (ht' : t'.Rooted root) (hedit : t.Relinked t' root p)

include ht ht' hedit

theorem Stays.pseudoClass (hx : t.Stays t' root x) (q : PseudoClass) (mode : DocumentMode)
    (c : Compound) (h : ∀ r ∈ q.readings t.toElementTree x, Overlooks p r) :
    q.holds t'.toElementTree mode c x = q.holds t.toElementTree mode c x ∧
      q.readings t'.toElementTree x = q.readings t.toElementTree x := by
  have row {kinds : List DependencyKind}
      (hkinds : .structural ∈ kinds ∨ .backwardsStructural ∈ kinds)
      (h : ∀ r ∈ (t.parent? x).toList.map fun q => (q, kinds), Overlooks p r) :
      t'.preceding x = t.preceding x ∧ t'.following x = t.following x :=
    hx.siblings ht ht' hedit (parent?_ne_of_overlooks hkinds h)
  cases q with
  | firstChild | nthChild | firstOfType | nthOfType =>
    obtain ⟨hpreceding, -⟩ := row (.inl (by decide)) h
    simp only [PseudoClass.holds, PseudoClass.readings, ElementTree.sameType, hpreceding, hedit.tag,
      hx.parent?, and_self]
  | lastChild | nthLastChild | lastOfType | nthLastOfType =>
    obtain ⟨-, hfollowing⟩ := row (.inr (by decide)) h
    simp only [PseudoClass.holds, PseudoClass.readings, ElementTree.sameType, hfollowing, hedit.tag,
      hx.parent?, and_self]
  | onlyChild | onlyOfType =>
    obtain ⟨hpreceding, hfollowing⟩ := row (.inl (by decide)) h
    simp only [PseudoClass.holds, PseudoClass.readings, ElementTree.sameType, hpreceding,
      hfollowing, hedit.tag, hx.parent?, and_self]
  | empty =>
    have hne : x ≠ p := fun heq => (h _ List.mem_cons_self heq).2 List.mem_cons_self
    exact ⟨hedit.isEmpty hx.before hx.after hne, rfl⟩
  | root =>
    simp only [PseudoClass.holds, PseudoClass.readings, ElementTree.isRoot, hx.ancestors, and_self]
  | lang =>
    simp only [PseudoClass.holds, PseudoClass.readings, ElementTree.inLanguage, hx.ancestors,
      hedit.attribute?, and_self]
  | hover | active | link | visited | focus | enabled | disabled | checked | target =>
    simp only [PseudoClass.holds, PseudoClass.readings, ElementTree.userActionHolds, hedit.state,
      and_self]

/-- What changes for matching is seen by readings of the structure of `p` only. -/
theorem Relinked.agrees (mode : DocumentMode) :
    t.Agrees t' mode (t.Stays t' root) (Overlooks p) where
  key := hedit.key
  tag := hedit.tag
  id? := hedit.id?
  classes := hedit.classes
  attribute? := hedit.attribute?
  inline? := hedit.inline?
  hints? := hedit.hints?
  pseudoClass q c _ hx h := hx.pseudoClass ht ht' hedit q mode c h
  combinator := by
    intro x combinator hx h
    cases combinator with
    | descendant => exact ⟨hx.ancestors, rfl, rfl⟩
    | child =>
      simp [Combinator.candidates, Combinator.exhausted, Combinator.readings, ElementTree.isRoot,
        hx.parent?, hx.ancestors]
    | adjacentSibling | generalSibling =>
      obtain ⟨hpreceding, -⟩ :=
        hx.siblings ht ht' hedit (parent?_ne_of_overlooks (.inl (by decide)) h)
      simp only [Combinator.candidates, Combinator.exhausted, Combinator.readings,
        ElementTree.previous?, hx.parent?, hpreceding, and_self]
  candidate := by
    intro x a combinator hx h ha
    have beside (h : ∀ r ∈ (t.parent? x).toList.map fun q => (q, [.structural]), Overlooks p r)
        (ha : a ∈ t.preceding x) : t.Stays t' root a :=
      hx.preceding ht ht' hedit (parent?_ne_of_overlooks (.inl (by decide)) h) ha
    cases combinator with
    | descendant => exact hx.ancestor ht ht' ha
    | child => exact hx.ancestor ht ht' (List.mem_of_head? (Option.mem_toList.mp ha))
    | adjacentSibling => exact beside h (List.mem_of_head? (Option.mem_toList.mp ha))
    | generalSibling => exact beside h ha

end Relinked

end StyledTree

/-! ## Readings of structure -/

mutual
/-- Whether `:empty` stands in a simple selector. -/
def Simple.asksEmpty (s : Simple) : Bool :=
  match s with
  | .pseudoClass .empty => true
  | .negation inner => Compound.asksEmpty inner
  | _ => false
/-- Whether `:empty` stands in a compound, in a negation perhaps. -/
def Compound.asksEmpty (c : Compound) : Bool :=
  match c with
  | [] => false
  | s :: rest => s.asksEmpty || Compound.asksEmpty rest
end

def Combinator.isSibling : Combinator → Bool
  | .descendant | .child => false
  | .adjacentSibling | .generalSibling => true

/-- Whether the walk of a selector goes to the siblings before an element and asks whether one of
them is empty. -/
def Complex.asksEmptyBeside (s : Complex) : Bool :=
  s.left.any fun (combinator, c) => combinator.isSibling && c.asksEmpty

/-- No selector of an active rule asks whether a sibling is empty. -/
def SheetSet.KeepsEmptyInside (set : SheetSet) (m : Medium) : Prop :=
  ∀ entry ∈ RuleIndex.activeRules set m, ∀ s ∈ entry.2.selectors, s.asksEmptyBeside = false

variable {t : ElementTree ε} {mode : DocumentMode} {x p : ε} {r : ε × List DependencyKind}

/-- A pseudo-class reads the structure of the parent, or whether the element is empty. -/
theorem PseudoClass.overlooks_of_mem_readings {q : PseudoClass} (hparent : t.parent? x ≠ some p)
    (hempty : q = .empty → x ≠ p) (hr : r ∈ q.readings t x) : Overlooks p r := by
  have above {kinds : List DependencyKind} (h : r ∈ (t.parent? x).toList.map fun q => (q, kinds)) :
      Overlooks p r := by
    obtain ⟨q, hq, rfl⟩ := List.mem_map.mp h
    intro heq
    exact absurd (heq ▸ Option.mem_toList.mp hq) hparent
  have state {kinds : List DependencyKind} (h : r ∈ [(x, kinds)])
      (hkinds : .structural ∉ kinds ∧ .backwardsStructural ∉ kinds) : Overlooks p r := by
    rw [List.mem_singleton.mp h]
    exact fun _ => hkinds
  cases q with
  | root | lang => simp [readings] at hr
  | empty =>
    rw [List.mem_singleton.mp hr]
    exact fun heq => absurd heq (hempty rfl)
  | focus | hover | active | link | visited | enabled | disabled | checked | target =>
    exact state hr (by decide)
  | _ => exact above hr

mutual
theorem Simple.overlooks_of_mem_readings {s : Simple} (hparent : t.parent? x ≠ some p)
    (hempty : s.asksEmpty = true → x ≠ p) (hr : r ∈ s.readings t mode x) : Overlooks p r := by
  match s with
  | .pseudoClass q =>
    rw [Simple.readings] at hr
    refine q.overlooks_of_mem_readings hparent (fun heq => hempty ?_) hr
    rw [heq, Simple.asksEmpty]
  | .negation inner =>
    rw [Simple.readings] at hr
    rw [Simple.asksEmpty] at hempty
    exact Compound.overlooks_of_mem_readingsAll hparent hempty hr
  | .universal | .tag _ | .id _ | .className _ | .attribute _ | .pseudoElement _ =>
    simp only [Simple.readings, List.not_mem_nil] at hr
theorem Compound.overlooks_of_mem_readingsAll {isSubject : Bool} {whole : Compound}
    {rest : List Simple} (hparent : t.parent? x ≠ some p)
    (hempty : Compound.asksEmpty rest = true → x ≠ p)
    (hr : r ∈ Compound.readingsAll t mode isSubject whole x rest) : Overlooks p r := by
  match rest with
  | [] => simp only [Compound.readingsAll, List.not_mem_nil] at hr
  | s :: rest =>
    rw [Compound.readingsAll] at hr
    rw [Compound.asksEmpty, Bool.or_eq_true] at hempty
    rcases List.mem_append.mp hr with hr | hr
    · exact Simple.overlooks_of_mem_readings hparent (fun h => hempty (.inl h)) hr
    · split at hr
      · exact Compound.overlooks_of_mem_readingsAll hparent (fun h => hempty (.inr h)) hr
      · simp at hr
end

/-! ## Readings from outside a branch -/

section Outside

variable {t : StyledTree ε} {root : ε} (ht : t.Rooted root)

include ht

/-- An element with `p` above it is in the branch of `p`, and is not `p`. -/
theorem StyledTree.Rooted.not_mem_ancestors_of_outside
    (hx : (StyledTree.Region.outside ht p).mem x) : p ∉ t.ancestors x := by
  intro hp
  obtain rfl := hx.2 (ht.mem_of_ancestor hx.1 (List.mem_cons_of_mem x hp)).2
  exact ht.not_mem_ancestors_self x hp

theorem StyledTree.Rooted.parent?_ne_of_outside (hx : (StyledTree.Region.outside ht p).mem x) :
    t.parent? x ≠ some p :=
  fun h => ht.not_mem_ancestors_of_outside hx (List.mem_of_head? h)

namespace Complex

/-- Left of a compound, `p` itself is met beside an element only, and there no compound asks whether
it is empty. -/
theorem overlooks_of_mem_readingsLeft {left : List (Combinator × Compound)}
    (hleft : (left.any fun (combinator, c) => combinator.isSibling && c.asksEmpty) = false)
    (hx : (StyledTree.Region.outside ht p).mem x)
    (hr : r ∈ readingsLeft t.toElementTree mode left x) : Overlooks p r := by
  induction left generalizing x with
  | nil => simp [readingsLeft] at hr
  | cons head left ih =>
    obtain ⟨combinator, c⟩ := head
    rw [List.any_cons, Bool.or_eq_false_iff, Bool.and_eq_false_imp] at hleft
    obtain ⟨hsibling, hleft⟩ := hleft
    rw [readingsLeft_cons] at hr
    rcases List.mem_append.mp hr with hr | hr
    · cases combinator with
      | descendant | child => simp [Combinator.readings] at hr
      | adjacentSibling | generalSibling =>
        obtain ⟨q, hq, rfl⟩ := List.mem_map.mp hr
        intro heq
        exact absurd (heq ▸ Option.mem_toList.mp hq) (ht.parent?_ne_of_outside hx)
    · obtain ⟨a, ha, hr⟩ := List.mem_flatMap.mp hr
      have ha := mem_of_mem_tried ha
      have hmem := (StyledTree.Region.outside ht p).closed hx (ElementTree.reaches_candidate ha)
      have hne (hasks : c.asksEmpty = true) : a ≠ p := by
        rintro rfl
        have habove := ht.not_mem_ancestors_of_outside hx
        cases combinator with
        | descendant => exact habove ha
        | child => exact habove (List.mem_of_head? (Option.mem_toList.mp ha))
        | adjacentSibling | generalSibling => exact absurd hasks (by simp [hsibling rfl])
      rw [readingsFrom] at hr
      rcases List.mem_append.mp hr with hr | hr
      · exact Compound.overlooks_of_mem_readingsAll (ht.parent?_ne_of_outside hmem) hne hr
      · split at hr
        · exact ih hleft hmem hr
        · simp at hr

theorem overlooks_of_mem_readings {s : Complex} (hs : s.asksEmptyBeside = false)
    (hx : (StyledTree.Region.outside ht p).mem x) (hne : x ≠ p)
    (hr : r ∈ s.readings t.toElementTree mode x) : Overlooks p r := by
  rw [readings] at hr
  rcases List.mem_append.mp hr with hr | hr
  · exact Compound.overlooks_of_mem_readingsAll (ht.parent?_ne_of_outside hx) (fun _ => hne) hr
  · split at hr
    · exact overlooks_of_mem_readingsLeft ht hs hx hr
    · simp at hr

end Complex

/-- What is noted for an element outside the branch of `p` overlooks the children of `p`. -/
theorem RuleIndex.overlooks_of_mem_heard {set : SheetSet} {m : Medium}
    (hset : set.KeepsEmptyInside m) {κ : Type} [BEq κ] [Hashable κ] {digest : Feature → κ}
    {filter : Option (AncestorFilter κ)} (hx : x ∈ (t.branch root).elements)
    (hout : x ∉ (t.branch p).elements)
    (hr : r ∈ (build set m).heard digest filter t.toElementTree x) : Overlooks p r := by
  have hne : x ≠ p := by
    rintro rfl
    exact hout (ht.mem_elements_self x)
  obtain ⟨id, -, hr⟩ := List.mem_flatMap.mp hr
  unfold heardOf at hr
  cases hid : (build set m).selector? id with
  | none =>
    rw [hid] at hr
    simp at hr
  | some found =>
    obtain ⟨rule, selector, specificity⟩ := found
    rw [hid] at hr
    simp only [Option.elim_some, Complex.filteredReadings] at hr
    split at hr
    · obtain ⟨entry, hentry, -, hselector⟩ := exists_of_selector?_build hid
      exact Complex.overlooks_of_mem_readings ht (hset entry hentry selector hselector)
        ⟨hx, fun h => absurd h hout⟩ hne hr
    · simp at hr

end Outside

end StyleEngine
