import StyleEngine.Pass.Styler

/-!
# Styling a subtree

A pass goes through a subtree in document order. For each element it collects the declarations that
apply, computes the style from them and from the style of the parent, and compares it with the style
that the element had before.

## Main definitions

* `PassM`: a computation on a styler and the report of its pass.
* `Styler.styleElement`: styles one element.
* `Styler.restyle`: a pass over an element and all below it.
-/

namespace StyleEngine

variable {ε : Type}

/-- The styler during a pass, and the report so far. -/
structure PassState where
  styler : Styler
  report : Report

/-- A step of a pass. It ends at the first declaration that does not fit. -/
abbrev PassM := StateT PassState (Except StyleError)

namespace PassM

def modifyStyler (f : Styler → Styler) : PassM Unit :=
  modify fun p => { p with styler := f p.styler }

def modifyReport (f : Report → Report) : PassM Unit :=
  modify fun p => { p with report := f p.report }

def styler : PassM Styler := do
  return (← get).styler

end PassM

namespace Styler

/-- Collects the declarations for an element, below the ancestors that the filter holds. -/
def collect (s : Styler) (t : StyledTree ε) (e : ε) : Collected × Styler :=
  let memory : MatchMemory := ⟨some s.cache, some s.dependencies⟩
  let (collected, memory) := (s.index.collect s.digest (some s.filter) t e).run memory
  (collected,
    { s with
      cache := memory.cache.getD s.cache
      dependencies := memory.dependencies.getD s.dependencies })

/-- The context for an element. At the root, root font sizes are those of the settings. -/
def contextOf (s : Styler) (isRoot : Bool) (parent : Option ComputedStyle) : StyleContext where
  initial := s.initial
  settings := s.settings
  metrics := s.metrics
  parent := parent
  pseudo := none
  isRoot := isRoot
  rootFontSize := if isRoot then s.settings.defaultFontSize else s.rootFontSize

/-- Computes a style under a stamp of its own. -/
def applyFresh (c : StyleContext) (es : List Entry) : PassM ComputedStyle := do
  let stamp := (← PassM.styler).stamp
  PassM.modifyStyler fun s => { s with stamp := stamp + 1 }
  c.apply stamp (es.map Entry.declaration)

/-- Whether a pseudo-element with the given style exists: one before or after the element has to
have content. -/
def pseudoExists (p : PseudoElement) (style : ComputedStyle) : Bool :=
  match p with
  | .before | .after => style.own.generated.value.content.isSome
  | _ => true

/-- Computes the styles of pseudo-elements from what was collected for them, and attaches them. -/
def attachPseudos (c : StyleContext) (collected : Collected) :
    List PseudoElement → ComputedStyle → PassM ComputedStyle
  | [], style => pure style
  | p :: rest, style => do
    let context := { c with parent := some style, pseudo := some p, isRoot := false }
    let pseudo ← applyFresh context (collected.forPseudo p)
    if pseudoExists p pseudo then
      let style ← style.attach pseudo
      attachPseudos c collected rest style
    else attachPseudos c collected rest style

/-- Shares the groups of an alike sibling, or else those of the parent. -/
def compact (key : ElementKey) (signature : Signature) (parent : Option ComputedStyle)
    (history : SiblingHistory) (style : ComputedStyle) :
    PassM (ComputedStyle × SiblingHistory) := do
  let styles := (← PassM.styler).styles
  let sibling := (history.find? signature).bind (styles[·]?)
  let history := history.remember key signature
  match sibling, parent with
  | some sibling, _ =>
    PassM.modifyReport fun r => { r with shared := r.shared + 1 }
    pure (style.compactWith sibling, history)
  | none, some parent => pure (style.compactWith parent, history)
  | none, none => pure (style, history)

/-- Stores the style of an element and its difference from the style before. -/
def commit (key : ElementKey) (isRoot : Bool) (style : ComputedStyle) : PassM Unit := do
  let s ← PassM.styler
  let difference := (s.styles[key]?).elim .containingBlockLayout (·.difference style)
  PassM.modifyReport (·.record key difference)
  PassM.modifyStyler fun s =>
    { s with
      differences := s.differences.insert key difference
      styles := s.styles.insert key style
      rootFontSize := if isRoot then style.fontSize else s.rootFontSize }

/-- Styles one element. An element that is cut off from the document is forgotten, and its style is
not used. -/
def styleElement (t : StyledTree ε) (parent : Option ComputedStyle) (history : SiblingHistory)
    (e : ε) : PassM (Option (ComputedStyle × SiblingHistory)) := do
  let key := t.key e
  let isRoot := t.isRoot e
  let (collected, s) := (← PassM.styler).collect t e
  PassM.modifyStyler fun _ => s
  let context := s.contextOf isRoot parent
  let style ← applyFresh context collected.entries
  let style ← attachPseudos context collected collected.pseudoElements style
  if t.isConnected e then
    let (style, history) ←
      if s.settings.sharing then
        compact key (.ofElement t e collected.matched) parent history style
      else pure (style, history)
    commit key isRoot style
    pure (some (style, history))
  else
    PassM.modifyStyler (·.forget key)
    PassM.modifyReport fun r => { r with discarded := r.discarded ++ [key] }
    pure none

mutual
/-- Styles a branch, and gives back the siblings to look for alike ones among. -/
def styleBranch (t : StyledTree ε) (parent : Option ComputedStyle) (history : SiblingHistory)
    (b : Branch ε) : PassM SiblingHistory :=
  match b with
  | .node e children => do
    match ← styleElement t parent history e with
    | none => pure history
    | some (style, history) =>
      PassM.modifyStyler fun s =>
        { s with filter := s.filter.push s.digest t.toElementTree e }
      let limit := (← PassM.styler).settings.scanLimit
      styleChildren t style (.empty limit) children
      PassM.modifyStyler fun s =>
        { s with filter := s.filter.pop s.digest t.toElementTree e }
      pure history
/-- Styles the branches of the children of an element with the given style, in order. -/
def styleChildren (t : StyledTree ε) (parent : ComputedStyle) (history : SiblingHistory)
    (bs : List (Branch ε)) : PassM Unit :=
  match bs with
  | [] => pure ()
  | b :: bs => do
    PassM.modifyStyler fun s =>
      { s with dependencies := s.dependencies.forget (t.key b.element) }
    let history ← styleBranch t (some parent) history b
    styleChildren t parent history bs
end

/-- The style of the parent of `e`, if `e` has a parent. -/
def parentStyle (s : Styler) (t : StyledTree ε) (e : ε) :
    Except RestyleError (Option ComputedStyle) :=
  match t.parent? e with
  | none => .ok none
  | some p =>
    match s.styles[t.key p]? with
    | some style => .ok (some style)
    | none => .error (.unstyledParent (t.key p) (t.key e))

/-- The styler at the start of a pass over `e`. What other elements noted at `e` is kept if it has a
parent, since the pass does not match those elements again. -/
def beginPass (s : Styler) (t : StyledTree ε) (e : ε) : Styler :=
  { s with
    dependencies := if t.isRoot e then s.dependencies.forget (t.key e) else s.dependencies
    cache := s.cache.beginPass
    filter := .ofAncestors s.digest t.toElementTree e }

/-- Styles an element and all below it. -/
def restyle (s : Styler) (t : StyledTree ε) (e : ε) : Except RestyleError (Styler × Report) :=
  if t.isConnected e then
    match s.parentStyle t e with
    | .error error => .error error
    | .ok parent =>
      let start : PassState := ⟨s.beginPass t e, .empty⟩
      match (styleBranch t parent (.empty s.settings.scanLimit) (t.branch e)).run start with
      | .ok (_, p) => .ok (p.styler, p.report)
      | .error error => .error (.style error)
  else .error (.detached (t.key e))

end Styler

end StyleEngine
