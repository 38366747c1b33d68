import StyleEngine.Cascade.Index
import StyleEngine.Element.Styled
import StyleEngine.Matching.Basic

/-!
# Collecting declarations

For one element, all declarations that apply to it and to its pseudo-elements, in an order in which
later ones win. Presentational hints are put first and inline declarations last; then each list is
sorted by priority, and the sort is stable.

## Main definitions

* `Entry`: a declaration with its priority and where it was found.
* `Collected`: the lists for an element and its pseudo-elements.
* `RuleIndex.collect`: fills the lists.
-/

namespace StyleEngine

/-- A declaration that takes part in a cascade. -/
structure Entry where
  declaration : Declaration
  /-- The place of the declaration in its block. -/
  place : Nat
  /-- The selector that matched; hints and inline declarations have none. -/
  selector : Option SelectorId
  origin : Origin
  priority : Priority

namespace Entry

/-- Whether the declaration is the first of its block. -/
def isFirst (e : Entry) : Bool := e.place == 0

/-- Whether the declaration chooses the font. -/
def isFont (e : Entry) : Bool := e.declaration.property.isFont

/-- The entries of a block. -/
def ofBlock (block : DeclarationBlock) (origin : Origin) (selector : Option SelectorId)
    (specificity : Specificity) (sourceOrder : UInt32) : List Entry :=
  block.zipIdx.map fun (d, place) =>
    { declaration := d
      place := place
      selector := selector
      origin := origin
      priority := ⟨Level.of origin d.important, specificity, sourceOrder⟩ }

/-- The entries of presentational hints stand before every rule. -/
def ofHints (block : DeclarationBlock) : List Entry :=
  ofBlock block .presentationalHint none .zero 0

/-- The entries of inline declarations stand behind every rule. -/
def ofInline (block : DeclarationBlock) : List Entry :=
  ofBlock block .inline none .zero 0xFFFFFFFF

end Entry

/-- The declarations for an element and for its pseudo-elements. -/
structure Collected where
  entries : List Entry
  pseudos : List (PseudoElement × List Entry)
  /-- The selectors that matched, in document order. -/
  matched : List SelectorId

namespace Collected

def empty : Collected := ⟨[], [], []⟩

/-- The list of `p` with `es` behind it; a list is made if there is none. -/
def extendPseudo (p : PseudoElement) (es : List Entry) :
    List (PseudoElement × List Entry) → List (PseudoElement × List Entry)
  | [] => [(p, es)]
  | (q, old) :: rest =>
    if q = p then (q, old ++ es) :: rest else (q, old) :: extendPseudo p es rest

/-- Puts entries behind the list of the element, or of a pseudo-element. -/
def extend (c : Collected) (target : Option PseudoElement) (es : List Entry) : Collected :=
  match target with
  | none => { c with entries := c.entries ++ es }
  | some p => { c with pseudos := extendPseudo p es c.pseudos }

/-- The entries for a pseudo-element. -/
def forPseudo (c : Collected) (p : PseudoElement) : List Entry :=
  ((c.pseudos.find? (·.1 = p)).map Prod.snd).getD []

/-- The pseudo-elements with entries, in the fixed order of all. -/
def pseudoElements (c : Collected) : List PseudoElement :=
  PseudoElement.all.filter fun p => !(c.forPseudo p).isEmpty

/-- Whether nothing was found. A selector for a pseudo-element counts even with an empty block. -/
def isEmpty (c : Collected) : Bool :=
  c.entries.isEmpty && c.pseudos.isEmpty

/-- Puts every list into cascade order. -/
def sort (c : Collected) : Collected :=
  { c with
    entries := Priority.sortBy Entry.priority c.entries
    pseudos := c.pseudos.map fun (p, es) => (p, Priority.sortBy Entry.priority es) }

end Collected

namespace RuleIndex

variable {ε κ : Type} [BEq κ] [Hashable κ]

/-- Adds the entries of one selector, if it matches. -/
def collectSelector (digest : Feature → κ) (filter : Option (AncestorFilter κ))
    (index : RuleIndex) (t : ElementTree ε) (e : ε) (c : Collected) (id : SelectorId) :
    MatchM Collected :=
  match index.selector? id with
  | none => pure c
  | some (rule, selector, specificity) => do
    let verdict ← selector.match? digest t index.mode filter (some id) e
    if verdict.isMatch then
      let entries :=
        Entry.ofBlock rule.declarations rule.origin (some id) specificity rule.sourceOrder
      pure { c.extend verdict.pseudo? entries with matched := c.matched ++ [id] }
    else pure c

/-- The declarations for an element, in cascade order. -/
def collect (digest : Feature → κ) (filter : Option (AncestorFilter κ)) (index : RuleIndex)
    (t : StyledTree ε) (e : ε) : MatchM Collected := do
  let hints := (t.hints? e).elim [] Entry.ofHints
  let inline := (t.inline? e).elim [] Entry.ofInline
  let found ← (index.lookup t.toElementTree e).foldlM
    (collectSelector digest filter index t.toElementTree e) (Collected.empty.extend none hints)
  pure (found.extend none inline).sort

end RuleIndex

end StyleEngine
