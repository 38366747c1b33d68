import StyleEngine.Element.State
import StyleEngine.Property.Declaration

/-!
# Documents

A document is a store of nodes that grows and is edited in place. A node is known by its number,
which is its place in the store; the parent of a node always has a smaller number. There may be
several nodes at the top, which are siblings of each other.

## Main definitions

* `Document`, `DocumentNode`, `NodeContent`: the store.
* `Document.add`, `Document.remove`: put a node among its siblings, and take an element out.
* `Document.update`: changes what an element holds.
-/

namespace StyleEngine

/-- What an element holds. -/
structure ElementContent where
  tag : String
  /-- Names and values in order. -/
  attributes : List (String × String)
  state : ElementState
  inline : Option DeclarationBlock
  hints : Option DeclarationBlock
  /-- A mark that cuts the element and all below it off from the document. -/
  detached : Bool

inductive NodeContent
  | element (content : ElementContent)
  | text (text : String)

/-- A node with its parent and its children in order. -/
structure DocumentNode where
  content : NodeContent
  parent : Option Nat
  children : List Nat

structure Document where
  nodes : Array DocumentNode
  /-- The nodes at the top, in order. -/
  top : List Nat

namespace ElementContent

/-- The value of the first attribute with a name, up to the case of ASCII letters. -/
def attribute? (c : ElementContent) (name : String) : Option String :=
  (c.attributes.find? fun a => Text.sameFolded a.1 name).map Prod.snd

/-- Changes the first attribute with a name, or puts a new one behind the others. -/
def setAttribute (c : ElementContent) (name value : String) : ElementContent :=
  { c with attributes := go c.attributes }
where
  go : List (String × String) → List (String × String)
    | [] => [(name, value)]
    | a :: rest => if Text.sameFolded a.1 name then (a.1, value) :: rest else a :: go rest

/-- Removes every attribute with a name. -/
def removeAttribute (c : ElementContent) (name : String) : ElementContent :=
  { c with attributes := c.attributes.filter fun a => !Text.sameFolded a.1 name }

end ElementContent

namespace Document

def empty : Document := ⟨#[], []⟩

def size (d : Document) : Nat := d.nodes.size

/-- What an element holds; `none` for a text and for a number that is not in use. -/
def element? (d : Document) (i : Nat) : Option ElementContent :=
  match d.nodes[i]? with
  | some ⟨.element content, _, _⟩ => some content
  | _ => none

/-- The numbers of all elements, ascending. -/
def elements (d : Document) : List Nat :=
  (List.range d.size).filter fun i => (d.element? i).isSome

/-- The parent of a node; it has a smaller number. -/
def parent? (d : Document) (i : Nat) : Option { p : Nat // p < i } := do
  let node ← d.nodes[i]?
  let p ← node.parent
  if h : p < i then some ⟨p, h⟩ else none

/-- The nodes inside a node, in order; inside `none` are the nodes at the top. -/
def inside (d : Document) : Option Nat → List Nat
  | none => d.top
  | some p => (d.nodes[p]?).elim [] (·.children)

/-- Replaces the nodes inside a node. -/
def setInside (d : Document) (parent : Option Nat) (l : List Nat) : Document :=
  match parent with
  | none => { d with top := l }
  | some p => { d with nodes := d.nodes.modify p fun node => { node with children := l } }

/-- The list with `i` in front of `before`, or behind all if `before` is not there. -/
def insertBefore (i : Nat) (before : Option Nat) : List Nat → List Nat
  | [] => [i]
  | j :: rest => if some j = before then i :: j :: rest else j :: insertBefore i before rest

/-- Adds a node inside `parent`; its number is the size of the document before. -/
def add (d : Document) (content : NodeContent) (parent before : Option Nat) : Document :=
  let i := d.size
  let siblings := insertBefore i before (d.inside parent)
  { d with nodes := d.nodes.push ⟨content, parent, []⟩ }.setInside parent siblings

/-- Takes a node out of its parent, or out of the document. What is below it stays there. -/
def remove (d : Document) (i : Nat) : Document :=
  let parent := (d.nodes[i]?).bind (·.parent)
  let d := d.setInside parent ((d.inside parent).filter (· != i))
  { d with nodes := d.nodes.modify i fun node => { node with parent := none } }

/-- Changes what an element holds. -/
def update (d : Document) (i : Nat) (change : ElementContent → ElementContent) : Document :=
  { d with
    nodes := d.nodes.modify i fun node =>
      match node.content with
      | .element content => { node with content := .element (change content) }
      | .text _ => node }

end Document

end StyleEngine
