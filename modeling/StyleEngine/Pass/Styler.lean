import StyleEngine.Cascade.Collect
import StyleEngine.Computation.Apply
import StyleEngine.Pass.Sharing
import StyleEngine.Style.Difference

/-!
# The styler

A `Styler` keeps the rules of a document, the style of every element as the last pass left it, and
what matching remembers. A pass over a subtree is in `StyleEngine.Pass.Restyle`.

## Main definitions

* `Styler`: the state between passes.
* `Styler.scopeOf`: how much has to be styled again after a change at an element.
* `Report`: what a pass did.
-/

namespace StyleEngine

/-- How much has to be styled again. -/
inductive RestyleScope
  | nothing
  /-- The element and all below it. -/
  | subtree
  /-- The parent of the element and all below it. -/
  | parentSubtree
deriving DecidableEq, Repr

structure Styler where
  settings : Settings
  metrics : FontMetrics
  /-- The style that every style starts from. -/
  initial : ComputedStyle
  index : RuleIndex
  cache : MatchCache
  dependencies : DependencyTable
  /-- What is counted of a feature in the filter. -/
  digest : Feature → Digest
  filter : AncestorFilter Digest
  styles : Std.HashMap ElementKey ComputedStyle
  differences : Std.HashMap ElementKey Difference
  /-- The font size of the root element as the last pass over it left it. -/
  rootFontSize : Float32
  /-- The stamp of the next style. -/
  stamp : Stamp

namespace Styler

/-- A styler that has seen no document yet. Its filter counts hashes, unless other digests are
given. -/
def create (settings : Settings) (metrics : FontMetrics) (sheets : SheetSet) (m : Medium)
    (digest : Feature → Digest := hash) : Styler where
  settings := settings
  metrics := metrics
  initial := .initial 0 settings.defaultFontSize
  index := .build sheets m
  cache := .empty
  dependencies := .empty
  digest := digest
  filter := .empty
  styles := ∅
  differences := ∅
  rootFontSize := settings.defaultFontSize
  stamp := 1

/-- Changes the sheets. Styles stay until the next pass; what matching remembers is dropped. -/
def replaceSheets (s : Styler) (sheets : SheetSet) (m : Medium) : Styler :=
  { s with
    index := .build sheets m
    cache := s.cache.clear
    dependencies := .empty }

/-- Drops all that is known about an element. -/
def forget (s : Styler) (key : ElementKey) : Styler :=
  { s with
    styles := s.styles.erase key
    differences := s.differences.erase key
    dependencies := s.dependencies.forget key }

/-- How much has to be styled again after the inputs `change` of an element changed. State is read
by selectors that reach siblings; structure is noted at the parent already. -/
def scopeOf (s : Styler) (key : ElementKey) (change : DependencyKinds) : RestyleScope :=
  let noted := s.dependencies.kinds key
  let stateful := DependencyKinds.ofKinds [.hover, .active, .focus, .otherState]
  let hit := DependencyKinds.ofKinds
    (DependencyKind.all.filter fun k => noted.has k && change.has k)
  if hit.isEmpty then .nothing
  else if hit.meets stateful then .parentSubtree
  else .subtree

end Styler

/-- What a pass did. -/
structure Report where
  /-- The number of elements that were styled. -/
  styled : Nat
  /-- The number of those that took over the groups of a sibling. -/
  shared : Nat
  /-- The elements that were found cut off from the document. -/
  discarded : List ElementKey
  /-- The greatest difference. -/
  worst : Difference
  /-- The elements with another style than before, with their differences. -/
  changed : List (ElementKey × Difference)

namespace Report

def empty : Report := ⟨0, 0, [], .equal, []⟩

/-- Counts an element that was styled. -/
def record (r : Report) (key : ElementKey) (d : Difference) : Report :=
  { r with
    styled := r.styled + 1
    worst := max r.worst d
    changed := if d = .equal then r.changed else r.changed ++ [(key, d)] }

end Report

/-- Why a pass comes to nothing. -/
inductive RestyleError
  | detached (key : ElementKey)
  | unstyledParent (parent root : ElementKey)
  /-- The pass met a declaration that does not fit. -/
  | style (error : StyleError)
deriving DecidableEq, Repr

namespace RestyleError

def message : RestyleError → String
  | detached key => "cannot restyle detached element " ++ toString key.toNat
  | unstyledParent parent root =>
    "parent " ++ toString parent.toNat ++ " of restyle root " ++ toString root.toNat ++
      " has no computed style"
  | style error => error.message

end RestyleError

end StyleEngine
