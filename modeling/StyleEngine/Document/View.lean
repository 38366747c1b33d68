import StyleEngine.Document.Basic
import StyleEngine.Element.Styled

/-!
# A document as a tree of elements

Parents have smaller numbers than their children, so the way up ends at zero and the way down at
the size of the document.

## Main definitions

* `Document.tree`: what styling sees of a document. Elements are numbers, and the number of an
  element is also its key.
-/

namespace StyleEngine.Document

/-- The parent, its parent, and so on. -/
def ancestors (d : Document) (i : Nat) : List Nat :=
  match d.parent? i with
  | none => []
  | some ⟨p, _⟩ => p :: ancestors d p
termination_by i

/-- The elements among the nodes inside the parent of `i`; none if `i` was taken out. -/
def siblingElements (d : Document) (i : Nat) : List Nat :=
  let siblings := d.inside ((d.nodes[i]?).bind (·.parent))
  if siblings.contains i then siblings.filter fun j => (d.element? j).isSome else []

/-- The element children of a node. -/
def childElements (d : Document) (i : Nat) : List Nat :=
  (d.inside (some i)).filter fun j => (d.element? j).isSome

/-- An element with all elements below it. -/
def branch (d : Document) (i : Nat) : Branch Nat :=
  .node i (((d.childElements i).filter fun j => i < j && j < d.size).attach.map fun ⟨j, _⟩ =>
    branch d j)
termination_by d.size - i
decreasing_by simp_all; omega

/-- Whether every node inside a node is a text without characters. -/
def isEmptyInside (d : Document) (i : Nat) : Bool :=
  (d.inside (some i)).all fun j =>
    match d.nodes[j]? with
    | some ⟨.text text, _, _⟩ => text.isEmpty
    | _ => false

/-- Whether no element on the way up has the detached mark and the way ends at the top of the
document. -/
def isConnected (d : Document) (i : Nat) : Bool :=
  let way := i :: d.ancestors i
  way.all (fun j => !(d.element? j).any (·.detached)) && way.getLast?.any d.top.contains

/-- An attribute of an element. -/
def attribute? (d : Document) (i : Nat) (name : String) : Option String :=
  (d.element? i).bind (·.attribute? name)

/-- The document as styling sees it. -/
def tree (d : Document) : StyledTree Nat where
  key i := UInt64.ofNat i
  ancestors := d.ancestors
  preceding i := ((d.siblingElements i).takeWhile (· != i)).reverse
  following i := ((d.siblingElements i).dropWhile (· != i)).drop 1
  tag i := (d.element? i).elim "" (·.tag)
  id? i := (d.attribute? i "id").filter (!·.isEmpty)
  classes i := (d.attribute? i "class").elim [] Text.tokens
  attribute? := d.attribute?
  state i := (d.element? i).elim .none (·.state)
  isEmpty := d.isEmptyInside
  inline? i := (d.element? i).bind (·.inline)
  hints? i := (d.element? i).bind (·.hints)
  isConnected := d.isConnected
  branch := d.branch

end StyleEngine.Document
