import StyleEngine.Element.Tree
import StyleEngine.Property.Declaration

/-!
# Trees whose elements take a style

Styling asks more of a tree than matching does: declarations that stand at an element itself, and
the way down from an element to its children.

## Main definitions

* `Branch`: an element with the branches of its children.
* `StyledTree`: an `ElementTree` with declarations and branches.
* `StyledTree.Lawful`: branches fit together with the neighbours that the tree gives.
-/

namespace StyleEngine

/-- An element and all elements below it, children in order. -/
inductive Branch (ε : Type)
  | node (element : ε) (children : List (Branch ε))

namespace Branch

variable {ε : Type}

def element : Branch ε → ε
  | node e _ => e

def children : Branch ε → List (Branch ε)
  | node _ cs => cs

mutual
/-- The elements of a branch in document order. -/
def elements : Branch ε → List ε
  | node e cs => e :: elementsOfAll cs
def elementsOfAll : List (Branch ε) → List ε
  | [] => []
  | b :: bs => elements b ++ elementsOfAll bs
end

end Branch

/-- What styling can ask about the elements `ε` of a document. -/
structure StyledTree (ε : Type) extends ElementTree ε where
  /-- The declarations of the `style` attribute. -/
  inline? : ε → Option DeclarationBlock
  /-- The declarations that other attributes stand for. -/
  hints? : ε → Option DeclarationBlock
  /-- Whether the element is part of the document. -/
  isConnected : ε → Bool
  branch : ε → Branch ε

namespace StyledTree

variable {ε : Type}

/-- The elements below an element are its descendants, and the children of an element are siblings
in their order. -/
structure Lawful (t : StyledTree ε) : Prop extends t.toElementTree.Lawful where
  element_branch : ∀ e, (t.branch e).element = e
  branch_child : ∀ {e c}, c ∈ (t.branch e).children →
    t.branch c.element = c ∧ t.ancestors c.element = e :: t.ancestors e
  siblings_child : ∀ {e before c after}, (t.branch e).children = before ++ c :: after →
    t.preceding c.element = (before.map Branch.element).reverse ∧
      t.following c.element = after.map Branch.element

end StyledTree

end StyleEngine
