import StyleEngine.Matching.AncestorFilter
import StyleEngine.Matching.Attribute
import StyleEngine.Matching.Cache
import StyleEngine.Matching.Dependency

/-!
# Matching

A complex selector is matched from its subject leftwards. The subject is tested at the element
itself; what is left of it is tested at an ancestor or an earlier sibling, as the combinator says.
Candidates are tried nearest first until one decides: an ancestor that fails for its whole subtree
settles the walk, since the ancestors further up are among its own.

Matching is a computation on a `MatchMemory`: it reads and fills the answers of the pass and notes
what each answer hung on. Both parts may be absent.

## Main definitions

* `Compound.test`: tests a compound at an element.
* `Complex.matchLeft`: tests all that is left of a compound.
* `Complex.match?`: the verdict for a selector at an element.
-/

namespace StyleEngine

variable {ε κ : Type} [BEq κ] [Hashable κ]

/-- What matching reads and writes besides the tree. -/
structure MatchMemory where
  cache : Option MatchCache
  dependencies : Option DependencyTable

namespace MatchMemory

/-- No answers are kept and nothing is noted. -/
def none : MatchMemory := ⟨.none, .none⟩

end MatchMemory

/-- A computation that may read and write a `MatchMemory`. -/
abbrev MatchM := StateM MatchMemory

namespace MatchM

/-- Notes that the answer hung on `kinds` of the element with the given key. -/
def noteKey (key : ElementKey) (kinds : List DependencyKind) : MatchM Unit :=
  modify fun m =>
    { m with dependencies := m.dependencies.map (·.record key (.ofKinds kinds)) }

def note (t : ElementTree ε) (e : ε) (kinds : List DependencyKind) : MatchM Unit :=
  noteKey (t.key e) kinds

/-- Notes at the parent, if there is one, that the answer hung on its children. -/
def noteParent (t : ElementTree ε) (e : ε) (kinds : List DependencyKind) : MatchM Unit :=
  match t.parent? e with
  | none => pure ()
  | some p => note t p kinds

/-- The answer remembered for a compound at an element, or else the answer of `find`, which is then
remembered. Nothing is remembered for a selector without an id. -/
def remembered (key : ElementKey) (id : Option SelectorId) (compound : Nat)
    (find : MatchM Outcome) : MatchM Outcome := do
  match id, (← get).cache with
  | some id, some cache =>
    let (hit, cache) := cache.get key id compound
    modify fun m => { m with cache := some cache }
    match hit with
    | some outcome => pure outcome
    | none =>
      let outcome ← find
      modify fun m => { m with cache := m.cache.map (·.set key id compound outcome) }
      pure outcome
  | _, _ => find

/-- Tries candidates in turn until one does not fail locally. -/
def firstDecisive (attempt : ε → MatchM Outcome) (exhausted : Outcome) :
    List ε → MatchM Outcome
  | [] => pure exhausted
  | e :: rest => do
    let outcome ← attempt e
    if outcome = .failsLocal then firstDecisive attempt exhausted rest else pure outcome

end MatchM

/-! ## Tests at one element -/

namespace ElementTree

/-- The siblings of the same type among `l`. -/
def sameType (t : ElementTree ε) (e : ε) (l : List ε) : List ε :=
  l.filter fun s => t.tag s == t.tag e

/-- Whether the nearest `lang` attribute at the element or above it is in the range. -/
def inLanguage (t : ElementTree ε) (e : ε) (range : String) : Bool :=
  match (e :: t.ancestors e).findSome? (t.attribute? · "lang") with
  | some tag => inLanguageRange range tag
  | none => false

end ElementTree

/-- Whether a compound has nothing but user actions to narrow it down. -/
def Compound.isBareUserAction (c : Compound) : Bool :=
  c.all fun
    | .universal | .pseudoClass .hover | .pseudoClass .active | .pseudoElement _ => true
    | _ => false

/-- Tests a user action. Of a bare user action in quirks mode only links and elements that can take
focus are accepted. -/
def testUserAction (t : ElementTree ε) (mode : DocumentMode) (c : Compound) (e : ε)
    (flag : StateFlag) : MatchM Bool := do
  MatchM.note t e [flag.kind]
  let state := t.state e
  pure (state.has flag &&
    (mode == .standards || !c.isBareUserAction || state.has .link || state.has .focusable))

/-- Tests a condition on the state that is noted as `otherState`. -/
def testState (t : ElementTree ε) (e : ε) (condition : ElementState → Bool) : MatchM Bool := do
  MatchM.note t e [.otherState]
  pure (condition (t.state e))

/-- Tests a condition that hangs on the order of the siblings. -/
def testStructure (t : ElementTree ε) (e : ε) (kinds : List DependencyKind)
    (condition : Bool) : MatchM Bool := do
  MatchM.noteParent t e kinds
  pure condition

/-- Tests a pseudo-class of the compound `c`. -/
def PseudoClass.test (t : ElementTree ε) (mode : DocumentMode) (c : Compound) (e : ε) :
    PseudoClass → MatchM Bool
  | .firstChild => testStructure t e [.structural] (t.preceding e).isEmpty
  | .lastChild => testStructure t e [.backwardsStructural] (t.following e).isEmpty
  | .onlyChild =>
    testStructure t e [.structural, .backwardsStructural]
      ((t.preceding e).isEmpty && (t.following e).isEmpty)
  | .nthChild nth =>
    testStructure t e [.structural] (nth.contains ((t.preceding e).length + 1))
  | .nthLastChild nth =>
    testStructure t e [.backwardsStructural] (nth.contains ((t.following e).length + 1))
  | .firstOfType =>
    testStructure t e [.structural] (t.sameType e (t.preceding e)).isEmpty
  | .lastOfType =>
    testStructure t e [.backwardsStructural] (t.sameType e (t.following e)).isEmpty
  | .onlyOfType =>
    testStructure t e [.structural, .backwardsStructural]
      ((t.sameType e (t.preceding e)).isEmpty && (t.sameType e (t.following e)).isEmpty)
  | .nthOfType nth =>
    testStructure t e [.structural]
      (nth.contains ((t.sameType e (t.preceding e)).length + 1))
  | .nthLastOfType nth =>
    testStructure t e [.backwardsStructural]
      (nth.contains ((t.sameType e (t.following e)).length + 1))
  | .empty => do
    MatchM.note t e [.backwardsStructural]
    pure (t.isEmpty e)
  | .root => pure (t.isRoot e)
  | .link => testState t e fun s => s.has .link && !s.has .visited
  | .visited => testState t e (·.has .visited)
  | .hover => testUserAction t mode c e .hover
  | .active => testUserAction t mode c e .active
  | .focus => do
    MatchM.note t e [.focus]
    pure ((t.state e).has .focus)
  | .enabled => testState t e (·.has .enabled)
  | .disabled => testState t e (·.has .disabled)
  | .checked => testState t e (·.has .checked)
  | .target => testState t e (·.has .target)
  | .lang range => pure (t.inLanguage e range)

/-- Whether two names are one in the given mode. -/
def DocumentMode.sameName (mode : DocumentMode) (a b : String) : Bool :=
  match mode with
  | .standards => a == b
  | .quirks => Text.sameFolded a b

mutual
/-- Tests one simple selector of the compound `whole`. Pseudo-elements are accepted at the subject
only, and never inside a negation. -/
def Simple.test (t : ElementTree ε) (mode : DocumentMode) (isSubject : Bool) (whole : Compound)
    (e : ε) (s : Simple) : MatchM Bool :=
  match s with
  | .universal => pure true
  | .tag name => pure (Text.sameFolded (t.tag e) name)
  | .id value => pure ((t.id? e).any (mode.sameName · value))
  | .className name => pure ((t.classes e).any (mode.sameName · name))
  | .attribute a => pure (a.holdsOf (t.attribute? e a.name))
  | .pseudoClass p => p.test t mode whole e
  | .pseudoElement _ => pure isSubject
  | .negation inner => do
    let found ← Compound.testAll t mode false inner e inner
    pure !found
/-- Tests the simple selectors `rest` of the compound `whole`, up to the first that fails. -/
def Compound.testAll (t : ElementTree ε) (mode : DocumentMode) (isSubject : Bool)
    (whole : Compound) (e : ε) (rest : List Simple) : MatchM Bool :=
  match rest with
  | [] => pure true
  | s :: rest => do
    let holds ← Simple.test t mode isSubject whole e s
    if holds then Compound.testAll t mode isSubject whole e rest else pure false
end

/-- Tests a compound at an element. -/
def Compound.test (t : ElementTree ε) (mode : DocumentMode) (isSubject : Bool) (c : Compound)
    (e : ε) : MatchM Bool :=
  Compound.testAll t mode isSubject c e c

/-! ## Complex selectors -/

namespace Complex

/-- Tests what is left of a compound that holds at `e`; `place` counts the compounds from the
subject to that compound, itself included. -/
def matchLeft (t : ElementTree ε) (mode : DocumentMode) (id : Option SelectorId) :
    List (Combinator × Compound) → Nat → ε → MatchM Outcome
  | [], _, _ => pure .accepted
  | (combinator, c) :: left, place, e =>
    let attempt (a : ε) : MatchM Outcome :=
      MatchM.remembered (t.key a) id place do
        let holds ← c.test t mode false a
        if holds then matchLeft t mode id left (place + 1) a else pure .failsLocal
    match combinator with
    | .descendant => MatchM.firstDecisive attempt .failsSubtree (t.ancestors e)
    | .child =>
      match t.parent? e with
      | none => pure .failsSubtree
      | some p => attempt p
    | .adjacentSibling => do
      MatchM.noteParent t e [.structural]
      match t.previous? e with
      | none => pure .failsLocal
      | some s => attempt s
    | .generalSibling => do
      MatchM.noteParent t e [.structural]
      MatchM.firstDecisive attempt .failsLocal (t.preceding e)

/-- Tests the whole selector at `e`, without a look at any filter. -/
def matchAt (t : ElementTree ε) (mode : DocumentMode) (id : Option SelectorId) (s : Complex)
    (e : ε) : MatchM Outcome := do
  let holds ← s.subject.test t mode true e
  if holds then matchLeft t mode id s.left 1 e else pure .failsLocal

end Complex

/-- The answer for a selector at an element. -/
structure Verdict where
  outcome : Outcome
  /-- The pseudo-element that an accepted selector speaks of. -/
  pseudo? : Option PseudoElement
deriving DecidableEq, Repr

namespace Verdict

def isMatch (v : Verdict) : Bool := v.outcome.isMatch

end Verdict

namespace Complex

/-- The verdict that goes with an outcome. -/
def verdict (s : Complex) (outcome : Outcome) : Verdict :=
  ⟨outcome, if outcome.isMatch then s.pseudoElement? else none⟩

/-- Matches a selector with `e` as its subject. A filter, if given, has to hold the ancestors of
`e`; a selector that it refuses fails at once. -/
def match? (digest : Feature → κ) (t : ElementTree ε) (mode : DocumentMode)
    (filter : Option (AncestorFilter κ)) (id : Option SelectorId) (s : Complex) (e : ε) :
    MatchM Verdict :=
  if filter.all (·.mayMatch digest s) then do
    let outcome ← s.matchAt t mode id e
    pure (s.verdict outcome)
  else pure (s.verdict .failsSubtree)

/-- Matching without memory and filter, in standards mode. -/
def matches? (t : ElementTree ε) (s : Complex) (e : ε) : Bool :=
  ((s.matchAt t .standards none e).run .none).1.isMatch

end Complex

/-- Whether a compound holds at an element as a subject, in standards mode. -/
def Compound.matches? (t : ElementTree ε) (c : Compound) (e : ε) : Bool :=
  ((c.test t .standards true e).run .none).1

end StyleEngine
