import StyleEngine.Matching.Basic

/-!
# Matching without memory

What a test says of an element hangs on the tree alone, and so does what it notes. Both are stated
here as functions of the tree, and every test of a compound is shown to come to them, whatever the
memory holds.

## Main definitions

* `Compound.holds`, `Compound.readings`: what a compound says of an element, and what it notes.
* `Complex.outcomeLeft`, `Complex.readingsLeft`: the same for all that is left of a compound.
* `MatchM.Tells`: a computation that answers and notes the same on every memory.
-/

namespace StyleEngine

variable {ε : Type}

/-! ## Notes -/

/-- The volatile inputs that an answer hung on, in the order in which they are noted. -/
abbrev Readings (ε : Type) := List (ε × List DependencyKind)

/-- A table with all readings noted. -/
def DependencyTable.noteAll (t : ElementTree ε) (table : DependencyTable) (rs : Readings ε) :
    DependencyTable :=
  rs.foldl (fun table r => table.record (t.key r.1) (.ofKinds r.2)) table

/-- A memory with all readings noted. -/
def MatchMemory.noteAll (t : ElementTree ε) (m : MatchMemory) (rs : Readings ε) : MatchMemory :=
  { m with dependencies := m.dependencies.map (·.noteAll t rs) }

@[simp] theorem MatchMemory.noteAll_nil (t : ElementTree ε) (m : MatchMemory) :
    m.noteAll t [] = m := by
  cases m with
  | mk cache dependencies => cases dependencies <;> rfl

@[simp] theorem MatchMemory.noteAll_noteAll (t : ElementTree ε) (m : MatchMemory)
    (rs rs' : Readings ε) : (m.noteAll t rs).noteAll t rs' = m.noteAll t (rs ++ rs') := by
  cases m with
  | mk cache dependencies =>
    cases dependencies <;> simp [noteAll, DependencyTable.noteAll]

/-- On every memory the computation answers `a` and notes `rs`. -/
def MatchM.Tells {α : Type} (t : ElementTree ε) (x : MatchM α) (a : α) (rs : Readings ε) : Prop :=
  ∀ m, x.run m = (a, m.noteAll t rs)

namespace MatchM

variable {α β : Type} {t : ElementTree ε}

theorem run_bind (x : MatchM α) (f : α → MatchM β) (m : MatchMemory) :
    (x >>= f).run m = (f (x.run m).1).run (x.run m).2 :=
  rfl

theorem run_pure (a : α) (m : MatchMemory) : (pure a : MatchM α).run m = (a, m) :=
  rfl

/-- Without a cache the answer is found anew. -/
theorem run_remembered_of_uncached (key : ElementKey) (id : Option SelectorId) (place : Nat)
    (find : MatchM Outcome) {m : MatchMemory} (hm : m.cache = none) :
    (remembered key id place find).run m = find.run m := by
  obtain ⟨cache, dependencies⟩ := m
  subst hm
  cases id <;> rfl

theorem tells_pure (a : α) : Tells t (pure a) a [] := by
  intro m
  rw [MatchMemory.noteAll_nil, run_pure]

theorem Tells.bind {x : MatchM α} {f : α → MatchM β} {a : α} {b : β} {rs rs' : Readings ε}
    (hx : Tells t x a rs) (hf : Tells t (f a) b rs') : Tells t (x >>= f) b (rs ++ rs') := by
  intro m
  rw [run_bind, hx m, hf, MatchMemory.noteAll_noteAll]

theorem Tells.map {x : MatchM α} {a : α} {rs : Readings ε} (hx : Tells t x a rs)
    (f : α → β) : Tells t (do let v ← x; pure (f v)) (f a) rs := by
  have h := hx.bind (f := fun v => pure (f v)) (tells_pure (f a))
  rwa [List.append_nil] at h

theorem tells_note (e : ε) (kinds : List DependencyKind) :
    Tells t (note t e kinds) () [(e, kinds)] :=
  fun _ => rfl

/-- A note at the parent is one reading, or none for an element at the top. -/
theorem tells_noteParent (e : ε) (kinds : List DependencyKind) :
    Tells t (noteParent t e kinds) () ((t.parent? e).toList.map fun p => (p, kinds)) := by
  unfold noteParent
  cases t.parent? e with
  | none => exact tells_pure ()
  | some p => exact tells_note p kinds

end MatchM

/-! ## Tests at one element -/

/-- Whether a user action holds; see `testUserAction`. -/
def ElementTree.userActionHolds (t : ElementTree ε) (mode : DocumentMode) (c : Compound) (e : ε)
    (flag : StateFlag) : Bool :=
  (t.state e).has flag &&
    (mode == .standards || !c.isBareUserAction || (t.state e).has .link ||
      (t.state e).has .focusable)

/-- What a pseudo-class of the compound `c` says of an element. -/
def PseudoClass.holds (t : ElementTree ε) (mode : DocumentMode) (c : Compound) (e : ε) :
    PseudoClass → Bool
  | .firstChild => (t.preceding e).isEmpty
  | .lastChild => (t.following e).isEmpty
  | .onlyChild => (t.preceding e).isEmpty && (t.following e).isEmpty
  | .nthChild nth => nth.contains ((t.preceding e).length + 1)
  | .nthLastChild nth => nth.contains ((t.following e).length + 1)
  | .firstOfType => (t.sameType e (t.preceding e)).isEmpty
  | .lastOfType => (t.sameType e (t.following e)).isEmpty
  | .onlyOfType =>
    (t.sameType e (t.preceding e)).isEmpty && (t.sameType e (t.following e)).isEmpty
  | .nthOfType nth => nth.contains ((t.sameType e (t.preceding e)).length + 1)
  | .nthLastOfType nth => nth.contains ((t.sameType e (t.following e)).length + 1)
  | .empty => t.isEmpty e
  | .root => t.isRoot e
  | .link => (t.state e).has .link && !(t.state e).has .visited
  | .visited => (t.state e).has .visited
  | .hover => t.userActionHolds mode c e .hover
  | .active => t.userActionHolds mode c e .active
  | .focus => (t.state e).has .focus
  | .enabled => (t.state e).has .enabled
  | .disabled => (t.state e).has .disabled
  | .checked => (t.state e).has .checked
  | .target => (t.state e).has .target
  | .lang range => t.inLanguage e range

/-- What the test of a pseudo-class notes. -/
def PseudoClass.readings (t : ElementTree ε) (e : ε) : PseudoClass → Readings ε
  | .firstChild | .nthChild _ | .firstOfType | .nthOfType _ =>
    (t.parent? e).toList.map fun p => (p, [.structural])
  | .lastChild | .nthLastChild _ | .lastOfType | .nthLastOfType _ =>
    (t.parent? e).toList.map fun p => (p, [.backwardsStructural])
  | .onlyChild | .onlyOfType =>
    (t.parent? e).toList.map fun p => (p, [.structural, .backwardsStructural])
  | .empty => [(e, [.backwardsStructural])]
  | .root | .lang _ => []
  | .hover => [(e, [.hover])]
  | .active => [(e, [.active])]
  | .focus => [(e, [.focus])]
  | .link | .visited | .enabled | .disabled | .checked | .target => [(e, [.otherState])]

open MatchM in
theorem PseudoClass.tells_test (t : ElementTree ε) (mode : DocumentMode) (c : Compound) (e : ε)
    (p : PseudoClass) : Tells t (p.test t mode c e) (p.holds t mode c e) (p.readings t e) := by
  have structure' (kinds : List DependencyKind) (b : Bool) :
      Tells t (testStructure t e kinds b) b ((t.parent? e).toList.map fun p => (p, kinds)) :=
    (tells_noteParent e kinds).map fun _ => b
  have state' (condition : ElementState → Bool) :
      Tells t (testState t e condition) (condition (t.state e)) [(e, [.otherState])] :=
    (tells_note e _).map fun _ => condition (t.state e)
  cases p with
  | root | lang => exact tells_pure _
  | empty | focus | hover | active => exact (tells_note e _).map _
  | link => exact state' fun s => s.has .link && !s.has .visited
  | visited => exact state' (·.has .visited)
  | enabled => exact state' (·.has .enabled)
  | disabled => exact state' (·.has .disabled)
  | checked => exact state' (·.has .checked)
  | target => exact state' (·.has .target)
  | _ => exact structure' _ _

mutual
/-- What a simple selector of the compound `whole` says of an element. Pseudo-elements are accepted
at the subject only, and a negation holds where its argument does not. -/
def Simple.holds (t : ElementTree ε) (mode : DocumentMode) (isSubject : Bool) (whole : Compound)
    (e : ε) (s : Simple) : Bool :=
  match s with
  | .universal => true
  | .tag name => Text.sameFolded (t.tag e) name
  | .id value => (t.id? e).any (mode.sameName · value)
  | .className name => (t.classes e).any (mode.sameName · name)
  | .attribute a => a.holdsOf (t.attribute? e a.name)
  | .pseudoClass p => p.holds t mode whole e
  | .pseudoElement _ => isSubject
  | .negation inner => !Compound.holdsAll t mode false inner e inner
/-- Whether all the simple selectors `rest` of the compound `whole` hold. -/
def Compound.holdsAll (t : ElementTree ε) (mode : DocumentMode) (isSubject : Bool)
    (whole : Compound) (e : ε) (rest : List Simple) : Bool :=
  match rest with
  | [] => true
  | s :: rest =>
    Simple.holds t mode isSubject whole e s && Compound.holdsAll t mode isSubject whole e rest
end

mutual
/-- What the test of a simple selector notes. -/
def Simple.readings (t : ElementTree ε) (mode : DocumentMode) (e : ε) (s : Simple) : Readings ε :=
  match s with
  | .pseudoClass p => p.readings t e
  | .negation inner => Compound.readingsAll t mode false inner e inner
  | _ => []
/-- What the tests of `rest` note, up to the first that fails. -/
def Compound.readingsAll (t : ElementTree ε) (mode : DocumentMode) (isSubject : Bool)
    (whole : Compound) (e : ε) (rest : List Simple) : Readings ε :=
  match rest with
  | [] => []
  | s :: rest =>
    Simple.readings t mode e s ++
      if Simple.holds t mode isSubject whole e s then
        Compound.readingsAll t mode isSubject whole e rest
      else []
end

namespace Compound

/-- What a compound says of an element. -/
def holds (t : ElementTree ε) (mode : DocumentMode) (isSubject : Bool) (c : Compound) (e : ε) :
    Bool :=
  holdsAll t mode isSubject c e c

/-- What the test of a compound notes. -/
def readings (t : ElementTree ε) (mode : DocumentMode) (isSubject : Bool) (c : Compound) (e : ε) :
    Readings ε :=
  readingsAll t mode isSubject c e c

end Compound

open MatchM in
mutual
theorem Simple.tells_test (t : ElementTree ε) (mode : DocumentMode) (isSubject : Bool)
    (whole : Compound) (e : ε) (s : Simple) :
    Tells t (s.test t mode isSubject whole e) (s.holds t mode isSubject whole e)
      (s.readings t mode e) := by
  match s with
  | .pseudoClass p =>
    simpa [Simple.test, Simple.holds, Simple.readings] using p.tells_test t mode whole e
  | .negation inner =>
    rw [Simple.test, Simple.holds, Simple.readings]
    exact (Compound.tells_testAll t mode false inner e inner).map (!·)
  | .universal | .tag _ | .id _ | .className _ | .attribute _ | .pseudoElement _ =>
    simpa [Simple.test, Simple.holds, Simple.readings] using tells_pure _
theorem Compound.tells_testAll (t : ElementTree ε) (mode : DocumentMode) (isSubject : Bool)
    (whole : Compound) (e : ε) (rest : List Simple) :
    Tells t (Compound.testAll t mode isSubject whole e rest)
      (Compound.holdsAll t mode isSubject whole e rest)
      (Compound.readingsAll t mode isSubject whole e rest) := by
  match rest with
  | [] => simpa [Compound.testAll, Compound.holdsAll, Compound.readingsAll] using tells_pure _
  | s :: rest =>
    rw [Compound.testAll, Compound.holdsAll, Compound.readingsAll]
    refine (Simple.tells_test t mode isSubject whole e s).bind ?_
    cases Simple.holds t mode isSubject whole e s with
    | false => simpa using tells_pure _
    | true => simpa using Compound.tells_testAll t mode isSubject whole e rest
end

/-- Every memory gets the same answer of a compound, and the same notes. -/
theorem Compound.tells_test (t : ElementTree ε) (mode : DocumentMode) (isSubject : Bool)
    (c : Compound) (e : ε) :
    MatchM.Tells t (c.test t mode isSubject e) (c.holds t mode isSubject e)
      (c.readings t mode isSubject e) :=
  Compound.tells_testAll t mode isSubject c e c

/-! ## Walks over candidates -/

namespace Combinator

/-- The elements at which the compound on the left of a combinator is tried, in order. -/
def candidates (t : ElementTree ε) (e : ε) : Combinator → List ε
  | .descendant => t.ancestors e
  | .child => (t.parent? e).toList
  | .adjacentSibling => (t.previous? e).toList
  | .generalSibling => t.preceding e

/-- What it means that no candidate is left. Without a parent, there are none further up either. -/
def exhausted (t : ElementTree ε) (e : ε) : Combinator → Outcome
  | .descendant => .failsSubtree
  | .child => if t.isRoot e then .failsSubtree else .failsLocal
  | .adjacentSibling | .generalSibling => .failsLocal

/-- What is noted before the first candidate is tried. -/
def readings (t : ElementTree ε) (e : ε) : Combinator → Readings ε
  | .descendant | .child => []
  | .adjacentSibling | .generalSibling =>
    (t.parent? e).toList.map fun p => (p, [.structural])

/-- The computation that notes `readings`. -/
def note (t : ElementTree ε) (e : ε) : Combinator → MatchM Unit
  | .descendant | .child => pure ()
  | .adjacentSibling | .generalSibling => MatchM.noteParent t e [.structural]

theorem tells_note (t : ElementTree ε) (e : ε) (combinator : Combinator) :
    MatchM.Tells t (combinator.note t e) () (combinator.readings t e) := by
  cases combinator with
  | descendant | child => exact MatchM.tells_pure ()
  | adjacentSibling | generalSibling => exact MatchM.tells_noteParent e _

end Combinator

namespace Outcome

/-- The first outcome of a candidate that is not a local failure. -/
def firstDecisive (attempt : ε → Outcome) (exhausted : Outcome) : List ε → Outcome
  | [] => exhausted
  | e :: rest =>
    if attempt e = .failsLocal then firstDecisive attempt exhausted rest else attempt e

/-- The candidates up to the first that decides. -/
def tried (attempt : ε → Outcome) : List ε → List ε
  | [] => []
  | e :: rest => e :: if attempt e = .failsLocal then tried attempt rest else []

end Outcome

namespace Complex

/-- What becomes of all that is left of a compound which holds at `e`. -/
def outcomeLeft (t : ElementTree ε) (mode : DocumentMode) :
    List (Combinator × Compound) → ε → Outcome
  | [], _ => .accepted
  | (combinator, c) :: left, e =>
    .firstDecisive (fun a => if c.holds t mode false a then outcomeLeft t mode left a
      else .failsLocal) (combinator.exhausted t e) (combinator.candidates t e)

/-- What becomes of a compound that is not the subject, and of all that is left of it. -/
def outcomeFrom (t : ElementTree ε) (mode : DocumentMode) (c : Compound)
    (left : List (Combinator × Compound)) (a : ε) : Outcome :=
  if c.holds t mode false a then outcomeLeft t mode left a else .failsLocal

@[simp] theorem outcomeLeft_nil (t : ElementTree ε) (mode : DocumentMode) (e : ε) :
    outcomeLeft t mode [] e = .accepted :=
  rfl

theorem outcomeLeft_cons (t : ElementTree ε) (mode : DocumentMode) (combinator : Combinator)
    (c : Compound) (left : List (Combinator × Compound)) (e : ε) :
    outcomeLeft t mode ((combinator, c) :: left) e =
      .firstDecisive (outcomeFrom t mode c left) (combinator.exhausted t e)
        (combinator.candidates t e) :=
  rfl

/-- What is noted while all that is left of a compound is tested. -/
def readingsLeft (t : ElementTree ε) (mode : DocumentMode) :
    List (Combinator × Compound) → ε → Readings ε
  | [], _ => []
  | (combinator, c) :: left, e =>
    combinator.readings t e ++
      (Outcome.tried (outcomeFrom t mode c left) (combinator.candidates t e)).flatMap fun a =>
        c.readings t mode false a ++
          if c.holds t mode false a then readingsLeft t mode left a else []

/-- What is noted while a compound that is not the subject, and all that is left of it, is
tested. -/
def readingsFrom (t : ElementTree ε) (mode : DocumentMode) (c : Compound)
    (left : List (Combinator × Compound)) (a : ε) : Readings ε :=
  c.readings t mode false a ++ if c.holds t mode false a then readingsLeft t mode left a else []

theorem readingsLeft_cons (t : ElementTree ε) (mode : DocumentMode) (combinator : Combinator)
    (c : Compound) (left : List (Combinator × Compound)) (e : ε) :
    readingsLeft t mode ((combinator, c) :: left) e =
      combinator.readings t e ++
        (Outcome.tried (outcomeFrom t mode c left) (combinator.candidates t e)).flatMap
          (readingsFrom t mode c left) :=
  rfl

/-- What becomes of the whole selector with `e` as its subject. -/
def outcome (t : ElementTree ε) (mode : DocumentMode) (s : Complex) (e : ε) : Outcome :=
  if s.subject.holds t mode true e then outcomeLeft t mode s.left e else .failsLocal

/-- What is noted while the whole selector is tested. -/
def readings (t : ElementTree ε) (mode : DocumentMode) (s : Complex) (e : ε) : Readings ε :=
  s.subject.readings t mode true e ++
    if s.subject.holds t mode true e then readingsLeft t mode s.left e else []

/-- The computation for a compound that is not the subject: the answer is looked up, or found and
kept. -/
def attempt (t : ElementTree ε) (mode : DocumentMode) (id : Option SelectorId) (c : Compound)
    (left : List (Combinator × Compound)) (place : Nat) (a : ε) : MatchM Outcome :=
  MatchM.remembered (t.key a) id place do
    let holds ← c.test t mode false a
    if holds then matchLeft t mode id left (place + 1) a else pure .failsLocal

/-- The four walks are one: some notes, and then one candidate after the other. -/
theorem matchLeft_cons (t : ElementTree ε) (mode : DocumentMode) (id : Option SelectorId)
    (combinator : Combinator) (c : Compound) (left : List (Combinator × Compound)) (place : Nat)
    (e : ε) :
    matchLeft t mode id ((combinator, c) :: left) place e = (do
      combinator.note t e
      MatchM.firstDecisive (attempt t mode id c left place) (combinator.exhausted t e)
        (combinator.candidates t e)) := by
  have single (a : ε) :
      MatchM.firstDecisive (attempt t mode id c left place) .failsLocal [a] =
        attempt t mode id c left place a := by
    funext m
    change (if (attempt t mode id c left place a m).1 = .failsLocal then
      pure .failsLocal else pure (attempt t mode id c left place a m).1 : MatchM Outcome)
        (attempt t mode id c left place a m).2 = _
    split
    · next h => exact Prod.ext h.symm rfl
    · rfl
  cases combinator with
  | descendant | generalSibling => rfl
  | child =>
    rw [matchLeft, Combinator.exhausted, Combinator.candidates, ElementTree.isRoot]
    cases h : t.parent? e with
    | none =>
      have hroot : t.ancestors e = [] := List.head?_eq_none_iff.mp h
      rw [hroot]
      rfl
    | some p =>
      obtain ⟨rest, hrest⟩ := List.head?_eq_some_iff.mp h
      rw [hrest]
      exact (single p).symm
  | adjacentSibling =>
    rw [matchLeft, Combinator.exhausted, Combinator.candidates, Combinator.note]
    cases t.previous? e with
    | none => rfl
    | some s =>
      rw [Option.toList_some, single s]
      rfl

/-! ## Matching without a cache -/

theorem run_attempt_of_uncached {t : ElementTree ε} {mode : DocumentMode}
    {left : List (Combinator × Compound)} (id : Option SelectorId) (c : Compound) (place : Nat)
    (hleft : ∀ e m, m.cache = none →
      (matchLeft t mode id left (place + 1) e).run m =
        (outcomeLeft t mode left e, m.noteAll t (readingsLeft t mode left e)))
    (a : ε) {m : MatchMemory} (hm : m.cache = none) :
    (attempt t mode id c left place a).run m =
      (outcomeFrom t mode c left a, m.noteAll t (readingsFrom t mode c left a)) := by
  rw [attempt, MatchM.run_remembered_of_uncached _ _ _ _ hm, MatchM.run_bind,
    Compound.tells_test t mode false c a m, outcomeFrom, readingsFrom]
  cases c.holds t mode false a with
  | false => simp [MatchM.run_pure, -StateT.run_pure]
  | true => simpa using hleft a (m.noteAll t _) hm

theorem run_firstDecisive_of_uncached {t : ElementTree ε} {attempt : ε → MatchM Outcome}
    {outcome : ε → Outcome} {readings : ε → Readings ε}
    (h : ∀ a {m : MatchMemory}, m.cache = none →
      (attempt a).run m = (outcome a, m.noteAll t (readings a)))
    (exhausted : Outcome) (l : List ε) {m : MatchMemory} (hm : m.cache = none) :
    (MatchM.firstDecisive attempt exhausted l).run m =
      (.firstDecisive outcome exhausted l,
        m.noteAll t ((Outcome.tried outcome l).flatMap readings)) := by
  induction l generalizing m with
  | nil =>
    simp [MatchM.firstDecisive, Outcome.firstDecisive, Outcome.tried, MatchM.run_pure,
      -StateT.run_pure]
  | cons a l ih =>
    rw [MatchM.firstDecisive, MatchM.run_bind, h a hm, Outcome.firstDecisive, Outcome.tried]
    by_cases ha : outcome a = .failsLocal
    · simpa [ha] using ih (m := m.noteAll t (readings a)) hm
    · simp [ha, MatchM.run_pure, -StateT.run_pure]

/-- Without a cache, matching answers as the tree alone says, and notes just what it reads. -/
theorem run_matchLeft_of_uncached (t : ElementTree ε) (mode : DocumentMode)
    (id : Option SelectorId) (left : List (Combinator × Compound)) (place : Nat) (e : ε)
    {m : MatchMemory} (hm : m.cache = none) :
    (matchLeft t mode id left place e).run m =
      (outcomeLeft t mode left e, m.noteAll t (readingsLeft t mode left e)) := by
  induction left generalizing place e m with
  | nil => simp [matchLeft, readingsLeft, MatchM.run_pure, -StateT.run_pure]
  | cons head left ih =>
    obtain ⟨combinator, c⟩ := head
    have hattempt := run_attempt_of_uncached id c place (fun e m => ih (place + 1) e (m := m))
    have hwalk := run_firstDecisive_of_uncached hattempt (combinator.exhausted t e)
      (combinator.candidates t e) (m := m.noteAll t (combinator.readings t e)) hm
    rw [matchLeft_cons, MatchM.run_bind, combinator.tells_note t e m, hwalk,
      MatchMemory.noteAll_noteAll]
    rfl

/-- Without a cache, the whole selector is answered as the tree alone says. -/
theorem run_matchAt_of_uncached (t : ElementTree ε) (mode : DocumentMode)
    (id : Option SelectorId) (s : Complex) (e : ε) {m : MatchMemory} (hm : m.cache = none) :
    (s.matchAt t mode id e).run m = (s.outcome t mode e, m.noteAll t (s.readings t mode e)) := by
  rw [outcome, readings, matchAt, MatchM.run_bind, Compound.tells_test t mode true s.subject e m]
  cases s.subject.holds t mode true e with
  | false => simp [MatchM.run_pure, -StateT.run_pure]
  | true => simpa using run_matchLeft_of_uncached t mode id s.left 1 e (m := m.noteAll t _) hm

/-- The verdict without a cache and without a filter. -/
theorem run_match?_of_uncached {κ : Type} [BEq κ] [Hashable κ] (digest : Feature → κ)
    (t : ElementTree ε) (mode : DocumentMode) (id : Option SelectorId) (s : Complex) (e : ε)
    {m : MatchMemory} (hm : m.cache = none) :
    (s.match? digest t mode none id e).run m =
      (s.verdict (s.outcome t mode e), m.noteAll t (s.readings t mode e)) := by
  change (do let outcome ← s.matchAt t mode id e; pure (s.verdict outcome) : MatchM Verdict).run m
    = _
  rw [MatchM.run_bind, run_matchAt_of_uncached t mode id s e hm, MatchM.run_pure]

end Complex

end StyleEngine
