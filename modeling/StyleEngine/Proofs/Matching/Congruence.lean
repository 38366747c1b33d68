import StyleEngine.Proofs.Matching.Reading

/-!
# Matching on trees that agree

A match hangs on what it reads. If two trees differ only in ways that none of its readings sees,
then it comes to the same outcome on both, and notes the same on both. In what the trees differ, and
which readings are `blind` to it, is left open: it is laid down by a predicate on readings.

## Main definitions

* `Complex.asksOnly`: a selector all of whose pseudo-classes are `asked` for.
* `ElementTree.Agrees`: two trees that differ for no `asked` test whose readings are all blind.
* `StyledTree.Agrees`: the same for trees whose elements take a style.

## Main statements

* `ElementTree.Agrees.complex`: a selector with blind readings comes to the same on both trees.
* `StyledTree.Agrees.collect`: so does all that is collected for an element.
-/

namespace StyleEngine

variable {ε : Type}

/-! ## What a selector asks -/

mutual
/-- Whether a simple selector of the compound `whole` tests pseudo-classes only that are `asked`
for, each together with the compound it stands in. -/
def Simple.asksOnly (asked : PseudoClass → Compound → Bool) (whole : Compound) (s : Simple) :
    Bool :=
  match s with
  | .pseudoClass p => asked p whole
  | .negation inner => Compound.asksOnlyAll asked inner inner
  | _ => true
def Compound.asksOnlyAll (asked : PseudoClass → Compound → Bool) (whole : Compound)
    (rest : List Simple) : Bool :=
  match rest with
  | [] => true
  | s :: rest => s.asksOnly asked whole && Compound.asksOnlyAll asked whole rest
end

def Compound.asksOnly (asked : PseudoClass → Compound → Bool) (c : Compound) : Bool :=
  asksOnlyAll asked c c

/-- Whether a selector tests pseudo-classes only that are `asked` for. -/
def Complex.asksOnly (asked : PseudoClass → Compound → Bool) (s : Complex) : Bool :=
  s.subject.asksOnly asked && s.left.all fun (_, c) => c.asksOnly asked

/-- Every pseudo-class in every compound. -/
def PseudoClass.any : PseudoClass → Compound → Bool := fun _ _ => true

mutual
theorem Simple.asksOnly_any (whole : Compound) (s : Simple) :
    s.asksOnly PseudoClass.any whole = true := by
  match s with
  | .negation inner =>
    rw [Simple.asksOnly]
    exact Compound.asksOnlyAll_any inner inner
  | .pseudoClass _ | .universal | .tag _ | .id _ | .className _ | .attribute _ | .pseudoElement _ =>
    simp only [Simple.asksOnly, PseudoClass.any]
theorem Compound.asksOnlyAll_any (whole : Compound) (rest : List Simple) :
    Compound.asksOnlyAll PseudoClass.any whole rest = true := by
  match rest with
  | [] => simp only [Compound.asksOnlyAll]
  | s :: rest =>
    rw [Compound.asksOnlyAll, s.asksOnly_any whole, Compound.asksOnlyAll_any whole rest,
      Bool.and_self]
end

@[simp] theorem Complex.asksOnly_any (s : Complex) : s.asksOnly PseudoClass.any = true := by
  simp [asksOnly, Compound.asksOnly, Compound.asksOnlyAll_any]

/-! ## Trees that agree -/

/-- Trees that tell elements of `mem` apart by volatile inputs at most, and such inputs only in a
test that is not `asked` for or if a reading that is not `blind` is noted. A walk whose readings are
blind stays in `mem`. -/
structure ElementTree.Agrees (t t' : ElementTree ε) (mode : DocumentMode) (mem : ε → Prop)
    (blind : ε × List DependencyKind → Prop) (asked : PseudoClass → Compound → Bool) : Prop where
  key : t'.key = t.key
  tag : t'.tag = t.tag
  id? : t'.id? = t.id?
  classes : t'.classes = t.classes
  attribute? : t'.attribute? = t.attribute?
  pseudoClass : ∀ {e} (p : PseudoClass) (c : Compound), asked p c = true → mem e →
    (∀ r ∈ p.readings t e, blind r) →
    p.holds t' mode c e = p.holds t mode c e ∧ p.readings t' e = p.readings t e
  combinator : ∀ {e} (combinator : Combinator), mem e →
    (∀ r ∈ combinator.readings t e, blind r) →
    combinator.candidates t' e = combinator.candidates t e ∧
      combinator.exhausted t' e = combinator.exhausted t e ∧
      combinator.readings t' e = combinator.readings t e
  candidate : ∀ {e a} (combinator : Combinator), mem e →
    (∀ r ∈ combinator.readings t e, blind r) → a ∈ combinator.candidates t e → mem a

/-- Trees that agree for matching any selector, and in the declarations that stand at elements. -/
structure StyledTree.Agrees (t t' : StyledTree ε) (mode : DocumentMode) (mem : ε → Prop)
    (blind : ε × List DependencyKind → Prop) : Prop
    extends t.toElementTree.Agrees t'.toElementTree mode mem blind PseudoClass.any where
  inline? : t'.inline? = t.inline?
  hints? : t'.hints? = t.hints?

/-- Candidates that are tried have the same outcomes, so the same ones are tried. -/
theorem Outcome.firstDecisive_congr {attempt attempt' : ε → Outcome}
    {readings readings' : ε → Readings ε} {l : List ε}
    (h : ∀ a ∈ tried attempt l, attempt' a = attempt a ∧ readings' a = readings a)
    (exhausted : Outcome) :
    firstDecisive attempt' exhausted l = firstDecisive attempt exhausted l ∧
      (tried attempt' l).flatMap readings' = (tried attempt l).flatMap readings := by
  induction l with
  | nil => exact ⟨rfl, rfl⟩
  | cons a l ih =>
    simp only [tried] at h
    obtain ⟨ha, hreadings⟩ := h a List.mem_cons_self
    simp only [firstDecisive, tried, ha, List.flatMap_cons, hreadings]
    split
    · next hlocal =>
      rw [if_pos hlocal] at h
      obtain ⟨hfirst, htried⟩ := ih fun b hb => h b (List.mem_cons_of_mem a hb)
      exact ⟨hfirst, by rw [htried]⟩
    · exact ⟨rfl, rfl⟩

namespace ElementTree.Agrees

variable {t t' : ElementTree ε} {mode : DocumentMode} {mem : ε → Prop}
  {blind : ε × List DependencyKind → Prop} {asked : PseudoClass → Compound → Bool} {e : ε}

/-! ## Tests -/

mutual
theorem simple (h : t.Agrees t' mode mem blind asked) (he : mem e) (isSubject : Bool)
    {whole : Compound} {s : Simple} (hasked : s.asksOnly asked whole = true)
    (hs : ∀ r ∈ s.readings t mode e, blind r) :
    s.holds t' mode isSubject whole e = s.holds t mode isSubject whole e ∧
      s.readings t' mode e = s.readings t mode e := by
  match s with
  | .pseudoClass p =>
    simp only [Simple.holds, Simple.readings, Simple.asksOnly] at hs hasked ⊢
    exact h.pseudoClass p whole hasked he hs
  | .negation inner =>
    simp only [Simple.holds, Simple.readings, Simple.asksOnly] at hs hasked ⊢
    obtain ⟨hholds, hreadings⟩ := h.compoundAll he hasked hs
    exact ⟨congrArg Bool.not hholds, hreadings⟩
  | .universal | .tag _ | .id _ | .className _ | .attribute _ | .pseudoElement _ =>
    simp only [Simple.holds, Simple.readings, h.tag, h.id?, h.classes, h.attribute?, and_self]
theorem compoundAll (h : t.Agrees t' mode mem blind asked) (he : mem e) {isSubject : Bool}
    {whole : Compound} {rest : List Simple} (hasked : Compound.asksOnlyAll asked whole rest = true)
    (hrest : ∀ r ∈ Compound.readingsAll t mode isSubject whole e rest, blind r) :
    Compound.holdsAll t' mode isSubject whole e rest =
        Compound.holdsAll t mode isSubject whole e rest ∧
      Compound.readingsAll t' mode isSubject whole e rest =
        Compound.readingsAll t mode isSubject whole e rest := by
  match rest with
  | [] => simp only [Compound.holdsAll, Compound.readingsAll, and_self]
  | s :: rest =>
    simp only [Compound.holdsAll, Compound.readingsAll] at hrest ⊢
    rw [Compound.asksOnlyAll, Bool.and_eq_true] at hasked
    obtain ⟨hs, hrest⟩ := List.forall_mem_append.mp hrest
    obtain ⟨hholds, hreadings⟩ := h.simple he isSubject hasked.1 hs
    rw [hholds, hreadings]
    cases hcase : s.holds t mode isSubject whole e with
    | false => simp
    | true =>
      rw [hcase, if_pos rfl] at hrest
      obtain ⟨hall, hallReadings⟩ := h.compoundAll he hasked.2 hrest
      simp [hall, hallReadings]
end

section Matching

variable (h : t.Agrees t' mode mem blind asked)

include h

theorem compound (he : mem e) {isSubject : Bool} {c : Compound} (hasked : c.asksOnly asked = true)
    (hc : ∀ r ∈ c.readings t mode isSubject e, blind r) :
    c.holds t' mode isSubject e = c.holds t mode isSubject e ∧
      c.readings t' mode isSubject e = c.readings t mode isSubject e :=
  h.compoundAll he hasked hc

/-! ## Selectors -/

theorem left (he : mem e) {left : List (Combinator × Compound)}
    (hasked : (left.all fun (_, c) => c.asksOnly asked) = true)
    (hleft : ∀ r ∈ Complex.readingsLeft t mode left e, blind r) :
    Complex.outcomeLeft t' mode left e = Complex.outcomeLeft t mode left e ∧
      Complex.readingsLeft t' mode left e = Complex.readingsLeft t mode left e := by
  induction left generalizing e with
  | nil => exact ⟨rfl, rfl⟩
  | cons head left ih =>
    obtain ⟨combinator, c⟩ := head
    rw [Complex.readingsLeft_cons] at hleft
    rw [List.all_cons, Bool.and_eq_true] at hasked
    obtain ⟨hwalk, htried⟩ := List.forall_mem_append.mp hleft
    obtain ⟨hcandidates, hexhausted, hreadings⟩ := h.combinator combinator he hwalk
    rw [Complex.outcomeLeft_cons, Complex.outcomeLeft_cons, Complex.readingsLeft_cons,
      Complex.readingsLeft_cons, hcandidates, hexhausted, hreadings]
    have hattempt : ∀ a ∈ Outcome.tried (Complex.outcomeFrom t mode c left)
        (combinator.candidates t e),
        Complex.outcomeFrom t' mode c left a = Complex.outcomeFrom t mode c left a ∧
          Complex.readingsFrom t' mode c left a = Complex.readingsFrom t mode c left a := by
      intro a ha
      have hmem : mem a := h.candidate combinator he hwalk (Complex.mem_of_mem_tried ha)
      have hfrom := List.forall_mem_flatMap.mp htried a ha
      rw [Complex.readingsFrom] at hfrom
      obtain ⟨hc, hleft⟩ := List.forall_mem_append.mp hfrom
      obtain ⟨hholds, hnoted⟩ := h.compound hmem hasked.1 hc
      rw [Complex.outcomeFrom, Complex.outcomeFrom, Complex.readingsFrom, Complex.readingsFrom,
        hholds, hnoted]
      cases hcase : c.holds t mode false a with
      | false => simp
      | true =>
        rw [hcase, if_pos rfl] at hleft
        obtain ⟨houtcome, hnoted⟩ := ih hmem hasked.2 hleft
        simp [houtcome, hnoted]
    obtain ⟨hfirst, hreadings⟩ :=
      Outcome.firstDecisive_congr hattempt (combinator.exhausted t e)
    exact ⟨hfirst, by rw [hreadings]⟩

/-- A selector whose tests are asked for and whose readings are blind comes to the same on both
trees. -/
theorem complex (he : mem e) {s : Complex} (hasked : s.asksOnly asked = true)
    (hs : ∀ r ∈ s.readings t mode e, blind r) :
    s.outcome t' mode e = s.outcome t mode e ∧ s.readings t' mode e = s.readings t mode e := by
  rw [Complex.readings] at hs
  rw [Complex.asksOnly, Bool.and_eq_true] at hasked
  obtain ⟨hsubject, hleft⟩ := List.forall_mem_append.mp hs
  obtain ⟨hholds, hnoted⟩ := h.compound he hasked.1 hsubject
  rw [Complex.outcome, Complex.outcome, Complex.readings, Complex.readings, hholds, hnoted]
  cases hcase : s.subject.holds t mode true e with
  | false => simp
  | true =>
    rw [hcase, if_pos rfl] at hleft
    obtain ⟨houtcome, hnoted⟩ := h.left he hasked.2 hleft
    simp [houtcome, hnoted]

theorem ancestors (he : mem e) : t'.ancestors e = t.ancestors e :=
  (h.combinator .descendant he (by simp [Combinator.readings])).1

theorem ancestor {a : ε} (he : mem e) (ha : a ∈ t.ancestors e) : mem a :=
  h.candidate .descendant he (by simp [Combinator.readings]) ha

theorem isRoot (he : mem e) : t'.isRoot e = t.isRoot e := by
  rw [ElementTree.isRoot, ElementTree.isRoot, h.ancestors he]

end Matching

/-! ## Filters -/

section Filters

variable {κ : Type} [BEq κ] [Hashable κ] (h : t.Agrees t' mode mem blind asked)

include h

omit [BEq κ] [Hashable κ] in
theorem ofElement (e : ε) : Feature.ofElement t' e = Feature.ofElement t e := by
  simp only [Feature.ofElement, h.tag, h.id?, h.classes]

omit [BEq κ] [Hashable κ] in
theorem keys (digest : Feature → κ) :
    AncestorFilter.keys digest t' = AncestorFilter.keys digest t := by
  funext e
  simp only [AncestorFilter.keys, h.ofElement]

theorem ofAncestors (he : mem e) (digest : Feature → κ) :
    AncestorFilter.ofAncestors digest t' e = AncestorFilter.ofAncestors digest t e := by
  simp only [AncestorFilter.ofAncestors, AncestorFilter.push, h.keys, h.ancestors he]

variable [LawfulBEq κ] {digest : Feature → κ} {filter : Option (AncestorFilter κ)}

theorem truthful (ht' : t'.Lawful) (he : mem e)
    (hf : AncestorFilter.Truthful digest t filter e) :
    AncestorFilter.Truthful digest t' filter e := by
  intro f hmem
  refine ⟨ht', ?_⟩
  have hkeys : AncestorFilter.ancestorKeys digest t' e =
      AncestorFilter.ancestorKeys digest t e := by
    rw [AncestorFilter.ancestorKeys, AncestorFilter.ancestorKeys, h.keys, h.ancestors he]
  exact hkeys ▸ (hf f hmem).2

/-- A selector that a filter may refuse comes to the same too: what is refused does not match on
either tree. -/
theorem filtered (ht' : t'.Lawful) (he : mem e) (hf : AncestorFilter.Truthful digest t filter e)
    {s : Complex} (hasked : s.asksOnly asked = true)
    (hs : ∀ r ∈ s.filteredReadings digest filter t mode e, blind r) :
    (s.outcome t' mode e).isMatch = (s.outcome t mode e).isMatch ∧
      s.filteredReadings digest filter t' mode e = s.filteredReadings digest filter t mode e := by
  have hf' := h.truthful ht' he hf
  rw [← Complex.isMatch_filteredOutcome hf, ← Complex.isMatch_filteredOutcome hf']
  unfold Complex.filteredOutcome Complex.filteredReadings at *
  split
  · next hpasses =>
    rw [if_pos hpasses] at hs
    obtain ⟨houtcome, hnoted⟩ := h.complex he hasked hs
    exact ⟨congrArg Outcome.isMatch houtcome, hnoted⟩
  · exact ⟨rfl, rfl⟩

end Filters

end ElementTree.Agrees

/-! ## Collecting -/

/-- If all that is noted for an element is blind, then the same is collected for it on both trees,
and the same is noted. -/
theorem StyledTree.Agrees.collect {t t' : StyledTree ε} {index : RuleIndex} {mem : ε → Prop}
    {blind : ε × List DependencyKind → Prop} {e : ε} {κ : Type} [BEq κ] [LawfulBEq κ] [Hashable κ]
    {digest : Feature → κ} {filter : Option (AncestorFilter κ)}
    (h : t.Agrees t' index.mode mem blind) (ht' : t'.toElementTree.Lawful) (he : mem e)
    (hf : AncestorFilter.Truthful digest t.toElementTree filter e)
    (hblind : ∀ r ∈ index.heard digest filter t.toElementTree e, blind r) :
    index.gather t' e = index.gather t e ∧
      index.heard digest filter t'.toElementTree e =
        index.heard digest filter t.toElementTree e := by
  have hlookup : index.lookup t'.toElementTree e = index.lookup t.toElementTree e := by
    simp only [RuleIndex.lookup, h.ofElement]
  have hone : ∀ id ∈ index.lookup t.toElementTree e,
      index.answers t'.toElementTree e id = index.answers t.toElementTree e id ∧
        index.heardOf digest filter t'.toElementTree e id =
          index.heardOf digest filter t.toElementTree e id := by
    intro id hid
    have hid := List.forall_mem_flatMap.mp hblind id hid
    unfold RuleIndex.heardOf RuleIndex.answers at *
    cases hselector : index.selector? id with
    | none => exact ⟨rfl, rfl⟩
    | some found =>
      obtain ⟨rule, selector, specificity⟩ := found
      rw [hselector] at hid
      simp only [Option.elim_some, Option.any_some] at hid ⊢
      exact h.filtered ht' he hf selector.asksOnly_any hid
  constructor
  · have hfilter : (index.lookup t.toElementTree e).filter (index.answers t'.toElementTree e) =
        (index.lookup t.toElementTree e).filter (index.answers t.toElementTree e) :=
      List.filter_congr fun id hid => (hone id hid).1
    rw [RuleIndex.gather, RuleIndex.gather, hlookup, hfilter, h.inline?, h.hints?]
  · rw [RuleIndex.heard, RuleIndex.heard, hlookup]
    exact List.flatMap_congr fun id hid => (hone id hid).2

end StyleEngine
