import StyleEngine.Selector.Nth
import StyleEngine.Text.Ascii

/-!
# Selectors

A compound is a list of simple selectors that all speak of one element. A complex selector is a
compound, the subject, with further compounds to its left, each behind a combinator. It is stored
from the subject outwards, because matching starts at the subject.

## Main definitions

* `Simple`, `Compound`, `Complex`: the three levels of a selector.
* `Compound.add`: puts a simple selector behind all those that are no dearer to test.
* `Compound.ofSimples`: sorts a list of simple selectors by the same rank.
-/

namespace StyleEngine

/-- How the value of an attribute is tested. -/
inductive AttributeTest
  | present
  | equals
  | includes
  | dashMatch
  | starts
  | ends
  | substring
deriving DecidableEq, Repr

/-- One attribute test of a compound. -/
structure AttributeSelector where
  name : String
  test : AttributeTest
  value : String
  caseInsensitive : Bool
deriving DecidableEq, Repr

inductive PseudoClass
  | firstChild
  | lastChild
  | onlyChild
  | nthChild (nth : Nth)
  | nthLastChild (nth : Nth)
  | firstOfType
  | lastOfType
  | onlyOfType
  | nthOfType (nth : Nth)
  | nthLastOfType (nth : Nth)
  | empty
  | root
  | link
  | visited
  | hover
  | active
  | focus
  | enabled
  | disabled
  | checked
  | target
  | lang (range : String)
deriving DecidableEq, Repr

/-- Parts of an element with a style of their own. -/
inductive PseudoElement
  | firstLine
  | firstLetter
  | selection
  | before
  | after
  | replaced
  | marker
deriving DecidableEq, Repr

namespace PseudoElement

/-- Every pseudo-element, in the order in which cascades and differences go through them. -/
def all : List PseudoElement :=
  [firstLine, firstLetter, selection, before, after, replaced, marker]

theorem mem_all (p : PseudoElement) : p ∈ all := by
  cases p <;> decide

/-- Pseudo-elements that make a box of their own. -/
def isGenerated : PseudoElement → Bool
  | before | after | marker | replaced => true
  | firstLine | firstLetter | selection => false

end PseudoElement

/-- One condition on an element. A negation holds a whole compound. -/
inductive Simple
  | universal
  | tag (name : String)
  | id (value : String)
  | className (name : String)
  | attribute (selector : AttributeSelector)
  | pseudoClass (pseudo : PseudoClass)
  | pseudoElement (pseudo : PseudoElement)
  | negation (inner : List Simple)
deriving Repr

/-- Conditions on one element, in the order in which they are tested. -/
abbrev Compound := List Simple

/-- The place of a simple selector in the order of testing: what is cheap and selective comes
first. -/
def Simple.rank : Simple → Nat
  | .universal | .tag _ => 0
  | .id _ => 1
  | .className _ => 2
  | .attribute _ => 3
  | .pseudoClass _ => 4
  | .negation _ => 5
  | .pseudoElement _ => 6

namespace Compound

/-- The simple selectors `l` in the order of testing; those of one rank keep their order. -/
def ofSimples (l : List Simple) : Compound :=
  l.mergeSort fun a b => a.rank ≤ b.rank

/-- Puts `s` before the first simple selector of a higher rank. -/
def add (c : Compound) (s : Simple) : Compound :=
  match c with
  | [] => [s]
  | t :: rest => if s.rank < t.rank then s :: t :: rest else t :: add rest s

/-- Names of types and attributes are kept in lower case. -/
def normalized : Simple → Simple
  | .tag name => .tag (Text.foldCase name)
  | .attribute a => .attribute { a with name := Text.foldCase a.name }
  | s => s

/-- The name of the first type selector. -/
def tagName? (c : Compound) : Option String :=
  c.findSome? fun
    | .tag name => some name
    | _ => none

/-- The value of the first id selector. -/
def idValue? (c : Compound) : Option String :=
  c.findSome? fun
    | .id value => some value
    | _ => none

/-- The names of all class selectors. -/
def classNames (c : Compound) : List String :=
  c.filterMap fun
    | .className name => some name
    | _ => none

/-- The first pseudo-element. -/
def pseudoElement? (c : Compound) : Option PseudoElement :=
  c.findSome? fun
    | .pseudoElement pseudo => some pseudo
    | _ => none

end Compound

/-- The relation that a complex selector asks for between the elements of two neighbouring
compounds. -/
inductive Combinator
  | descendant
  | child
  | adjacentSibling
  | generalSibling
deriving DecidableEq, Repr

/-- A subject, and the compounds to its left with the combinator on the right of each, nearest
first. -/
structure Complex where
  subject : Compound
  left : List (Combinator × Compound)
deriving Repr

namespace Complex

/-- A selector of one compound. -/
def ofCompound (c : Compound) : Complex := ⟨c, []⟩

/-- The selector `s` followed on the right by a new subject. -/
def append (s : Complex) (combinator : Combinator) (subject : Compound) : Complex :=
  ⟨subject, (combinator, s.subject) :: s.left⟩

/-- The compounds from the subject leftwards. -/
def compounds (s : Complex) : List Compound :=
  s.subject :: s.left.map Prod.snd

/-- The number of compounds. -/
def size (s : Complex) : Nat := s.left.length + 1

/-- The compound with `i` compounds on its right. -/
def compound? (s : Complex) (i : Nat) : Option Compound :=
  s.compounds[i]?

/-- The combinator on the left of the compound with `i` compounds on its right. -/
def combinator? (s : Complex) (i : Nat) : Option Combinator :=
  (s.left[i]?).map Prod.fst

/-- The pseudo-element that the selector speaks of. -/
def pseudoElement? (s : Complex) : Option PseudoElement :=
  s.subject.pseudoElement?

@[simp] theorem length_compounds (s : Complex) : s.compounds.length = s.size := by
  simp [compounds, size]

end Complex

end StyleEngine
