import StyleEngine.Cascade.Sheet
import StyleEngine.Matching.AncestorFilter
import StyleEngine.Matching.Cache

/-!
# Index of rules

Each selector is filed under the most selective feature that its subject asks for: an id, else a
class, else a type, else nothing. For an element only the selectors filed under its own features
need a look. Features are filed in lower case, so that the index finds too much rather than too
little.

## Main definitions

* `RuleIndex.build`: the index of the sheets that are active.
* `RuleIndex.lookup`: the selectors that may match an element, in document order.
* `RuleIndex.selector?`: the rule and the selector behind an id.
-/

namespace StyleEngine

/-- A rule with the weights of its selectors and its place in the document. -/
structure IndexedRule where
  origin : Origin
  selectors : Array Complex
  specificities : Array Specificity
  declarations : DeclarationBlock
  sourceOrder : UInt32

structure RuleIndex where
  mode : DocumentMode
  rules : Array IndexedRule
  /-- The selectors filed under each feature; under `none` stand those that ask for none. -/
  buckets : Std.HashMap (Option Feature) (Array SelectorId)

/-- The feature under which a subject is filed. -/
def Compound.filingFeature? (c : Compound) : Option Feature :=
  match c.idValue?, c.classNames, c.tagName? with
  | some value, _, _ => some (Feature.id value).folded
  | none, name :: _, _ => some (Feature.className name).folded
  | none, [], some name => some (Feature.tag name).folded
  | none, [], none => none

namespace RuleIndex

def empty (mode : DocumentMode) : RuleIndex := ⟨mode, #[], ∅⟩

/-- The ids of the selectors of a rule with the given number, each with its selector. Positions are
counted modulo `2 ^ 16`. -/
def numbered (rule : Nat) (selectors : List Complex) : List (SelectorId × Complex) :=
  selectors.zipIdx.map fun (s, position) =>
    (⟨UInt32.ofNat rule, UInt16.ofNat position⟩, s)

/-- Files one selector. -/
def file (buckets : Std.HashMap (Option Feature) (Array SelectorId))
    (entry : SelectorId × Complex) : Std.HashMap (Option Feature) (Array SelectorId) :=
  buckets.alter entry.2.subject.filingFeature? fun ids => some ((ids.getD #[]).push entry.1)

/-- Adds a rule behind the others. -/
def insert (index : RuleIndex) (origin : Origin) (rule : Rule) : RuleIndex where
  mode := index.mode
  buckets := (numbered index.rules.size rule.selectors).foldl file index.buckets
  rules := index.rules.push
    { origin := origin
      selectors := rule.selectors.toArray
      specificities := (rule.selectors.map Complex.specificity).toArray
      declarations := rule.declarations
      sourceOrder := UInt32.ofNat index.rules.size }

/-- The rules that are active on a medium, each with its origin, in document order. -/
def activeRules (set : SheetSet) (m : Medium) : List (Origin × Rule) :=
  (set.active m).flatMap fun sheet => sheet.rules.map fun rule => (sheet.origin, rule)

/-- The index of all rules that are active on a medium. -/
def build (set : SheetSet) (m : Medium) : RuleIndex :=
  (activeRules set m).foldl (fun index (origin, rule) => index.insert origin rule)
    (empty set.mode)

def bucket (index : RuleIndex) (feature : Option Feature) : List SelectorId :=
  (index.buckets.getD feature #[]).toList

/-- The selectors that may match an element, each once, in document order. -/
def lookup {ε : Type} (index : RuleIndex) (t : ElementTree ε) (e : ε) : List SelectorId :=
  let features := none :: (Feature.ofElement t e).map fun x => some x.folded
  let found := features.flatMap index.bucket
  (found.mergeSort fun a b => (compare a b).isLE).eraseReps

/-- The rule, the selector and its weight behind an id. -/
def selector? (index : RuleIndex) (id : SelectorId) :
    Option (IndexedRule × Complex × Specificity) := do
  let rule ← index.rules[id.rule.toNat]?
  let selector ← rule.selectors[id.position.toNat]?
  pure (rule, selector, rule.specificities.getD id.position.toNat .zero)

/-- The ids of all selectors, in document order. -/
def allSelectors (index : RuleIndex) : List SelectorId :=
  index.rules.toList.zipIdx.flatMap fun (rule, i) =>
    (numbered i rule.selectors.toList).map Prod.fst

/-- The number of rules. -/
def size (index : RuleIndex) : Nat := index.rules.size

/-- The number of selectors that ask for no feature. -/
def residualSize (index : RuleIndex) : Nat := (index.bucket none).length

end RuleIndex

end StyleEngine
