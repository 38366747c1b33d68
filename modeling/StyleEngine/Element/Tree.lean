import StyleEngine.Element.State

/-!
# Trees of elements

The matcher sees a document through the observations of an `ElementTree`. The neighbours of an
element are given as lists, nearest first: its ancestors, the siblings before it and the siblings
after it. Walks over a document are thereby recursions on lists.

## Main definitions

* `ElementTree`: what can be asked about an element.
* `ElementTree.Lawful`: the lists fit together as those of a finite tree do.
-/

namespace StyleEngine

/-- The number by which tables know an element. -/
abbrev ElementKey := UInt64

/-- What can be asked about the elements `ε` of a document. Text nodes are not elements, and no
list of elements holds one. -/
structure ElementTree (ε : Type) where
  key : ε → ElementKey
  /-- The parent, its parent, and so on up to an element without a parent. -/
  ancestors : ε → List ε
  /-- The siblings before the element, nearest first. -/
  preceding : ε → List ε
  /-- The siblings after the element, nearest first. -/
  following : ε → List ε
  tag : ε → String
  /-- The id, if there is one that is not empty. -/
  id? : ε → Option String
  classes : ε → List String
  attribute? : ε → String → Option String
  state : ε → ElementState
  /-- Whether the element has neither an element nor a character inside. -/
  isEmpty : ε → Bool

namespace ElementTree

variable {ε : Type}

def parent? (t : ElementTree ε) (e : ε) : Option ε :=
  (t.ancestors e).head?

def previous? (t : ElementTree ε) (e : ε) : Option ε :=
  (t.preceding e).head?

/-- A root is an element without a parent. -/
def isRoot (t : ElementTree ε) (e : ε) : Bool :=
  (t.ancestors e).isEmpty

/-- The lists of neighbours are those of a finite tree: the ancestors of a parent are the rest of
the ancestors of its child, and siblings have one parent and one list of siblings. -/
structure Lawful (t : ElementTree ε) : Prop where
  ancestors_eq : ∀ {e p rest}, t.ancestors e = p :: rest → t.ancestors p = rest
  preceding_eq : ∀ {e s rest}, t.preceding e = s :: rest →
    t.preceding s = rest ∧ t.following s = e :: t.following e ∧ t.ancestors s = t.ancestors e
  following_eq : ∀ {e s rest}, t.following e = s :: rest →
    t.following s = rest ∧ t.preceding s = e :: t.preceding e ∧ t.ancestors s = t.ancestors e

/-- No two elements have one key. -/
def KeysDistinct (t : ElementTree ε) : Prop :=
  ∀ {a b}, t.key a = t.key b → a = b

end ElementTree

end StyleEngine
