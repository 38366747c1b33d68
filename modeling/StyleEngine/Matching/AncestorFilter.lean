import Std.Data.HashMap
import StyleEngine.Element.Tree
import StyleEngine.Selector.Basic

/-!
# Features of the ancestors

A counted set of the tags, ids and classes on the way up from an element tells of most selectors
that they cannot match before any walk. Features are kept in lower case and may be replaced by a
digest; both can only make two features look alike, so the set errs towards "may match".

## Main definitions

* `AncestorFilter`: the counted set, for a digest of the user's choice.
* `Digest`: the digests of stylers.
* `AncestorFilter.push`, `AncestorFilter.pop`: enter and leave an element.
* `AncestorFilter.mayMatch`: false only if no element below the counted ones matches.
-/

namespace StyleEngine

/-- A property of an element that a compound can ask for by name. -/
inductive Feature
  | tag (name : String)
  | id (value : String)
  | className (name : String)
deriving DecidableEq, Hashable, Repr

namespace Feature

/-- The feature in lower case. -/
def folded : Feature → Feature
  | tag name => tag (Text.foldCase name)
  | id value => id (Text.foldCase value)
  | className name => className (Text.foldCase name)

/-- The features of an element, classes as often as they occur. -/
def ofElement {ε : Type} (t : ElementTree ε) (e : ε) : List Feature :=
  tag (t.tag e) :: (t.id? e).toList.map id ++ (t.classes e).map className

/-- The features that a compound asks for: its type, its first id and its classes. -/
def ofCompound (c : Compound) : List Feature :=
  c.tagName?.toList.map tag ++ c.idValue?.toList.map id ++ c.classNames.map className

end Feature

/-- What a styler keeps of a feature. Features with one digest are not told apart. -/
abbrev Digest := UInt64

/-- How often each digest of a feature occurs among the elements entered. -/
structure AncestorFilter (κ : Type) [BEq κ] [Hashable κ] where
  counts : Std.HashMap κ Nat

namespace AncestorFilter

variable {ε κ : Type} [BEq κ] [Hashable κ]

def empty : AncestorFilter κ := ⟨∅⟩

def insertKey (f : AncestorFilter κ) (k : κ) : AncestorFilter κ :=
  ⟨f.counts.insert k (f.counts.getD k 0 + 1)⟩

/-- Takes back one `insertKey`. A key that is not there is left alone, and no count of zero is
kept. -/
def eraseKey (f : AncestorFilter κ) (k : κ) : AncestorFilter κ :=
  match f.counts[k]? with
  | none => f
  | some n => if n ≤ 1 then ⟨f.counts.erase k⟩ else ⟨f.counts.insert k (n - 1)⟩

/-- The digests of the features of an element. -/
def keys (digest : Feature → κ) (t : ElementTree ε) (e : ε) : List κ :=
  (Feature.ofElement t e).map fun x => digest x.folded

/-- Enters an element: it becomes an ancestor of all that is matched until `pop`. -/
def push (digest : Feature → κ) (f : AncestorFilter κ) (t : ElementTree ε) (e : ε) :
    AncestorFilter κ :=
  (keys digest t e).foldl insertKey f

/-- Leaves an element that was entered. -/
def pop (digest : Feature → κ) (f : AncestorFilter κ) (t : ElementTree ε) (e : ε) :
    AncestorFilter κ :=
  (keys digest t e).foldl eraseKey f

/-- The filter that holds exactly the ancestors of `e`. -/
def ofAncestors (digest : Feature → κ) (t : ElementTree ε) (e : ε) : AncestorFilter κ :=
  (t.ancestors e).foldr (fun a f => f.push digest t a) empty

/-- False only if no element entered has all the features that `c` asks for. -/
def mightHave (digest : Feature → κ) (f : AncestorFilter κ) (c : Compound) : Bool :=
  (Feature.ofCompound c).all fun x => f.counts.contains (digest x.folded)

/-- False only if a compound that has to match an ancestor cannot. -/
def mayMatch (digest : Feature → κ) (f : AncestorFilter κ) (s : Complex) : Bool :=
  s.left.all fun (combinator, c) =>
    match combinator with
    | .descendant | .child => f.mightHave digest c
    | .adjacentSibling | .generalSibling => true

end AncestorFilter

end StyleEngine
