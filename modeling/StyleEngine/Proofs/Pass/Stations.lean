import StyleEngine.Proofs.Pass.Walk

/-!
# The stations of a pass

A pass comes to one element after the other, and collects for each on the styler as it is then. The
stations are these moments in their order, for a pass that comes to an end and for one that comes to
a stop at a declaration. What is true at all of them is proved along the recursion of a pass: when
it enters an element, when it goes on from a child to the next, and when it leaves the element.

## Main definitions

* `Styler.stations`: the stations of a pass.
* `PassRule`: what is true along a pass, step by step.

## Main statements

* `PassRule.stations`: what is true along a pass is true at its stations.
* `Styler.Enduring.stations`: what endures in a pass is true at its stations.
* `Styler.map_element_stations`: a pass that comes to an end has a station at every element that is
  met.
-/

namespace StyleEngine

variable {ε : Type}

/-! ## Between the elements -/

namespace PassState

/-- The state below an element. -/
def enter (t : StyledTree ε) (e : ε) (p : PassState) : PassState :=
  ⟨{ p.styler with filter := p.styler.filter.push p.styler.digest t.toElementTree e }, p.report⟩

/-- The state behind an element, from the one behind all that is below it. -/
def leave (t : StyledTree ε) (e : ε) (p : PassState) : PassState :=
  ⟨{ p.styler with filter := p.styler.filter.pop p.styler.digest t.toElementTree e }, p.report⟩

def forgetNotes (key : ElementKey) (p : PassState) : PassState :=
  ⟨{ p.styler with dependencies := p.styler.dependencies.forget key }, p.report⟩

end PassState

/-- A child that is about to be styled: what was noted at it is forgotten first. -/
def Station.ofChild (t : StyledTree ε) (style : ComputedStyle) (history : SiblingHistory)
    (p : PassState) (x : ε) : Station ε :=
  ⟨x, some style, history, p.forgetNotes (t.key x)⟩

namespace Styler

open PassM

section Runs

variable {t : StyledTree ε} {parent : Option ComputedStyle} {style : ComputedStyle}
  {history history' : SiblingHistory} {e : ε} {b : Branch ε} {bs : List (Branch ε)}
  {p p' : PassState}

/-- What a pass over a branch that comes to an end consists of. -/
theorem cases_of_run_styleBranch
    (h : (styleBranch t parent history (.node e bs)).run p = .ok (history', p')) :
    (Station.style t ⟨e, parent, history, p⟩ = .ok (none, p') ∧ history' = history) ∨
    ∃ style p₁ p₂, Station.style t ⟨e, parent, history, p⟩ = .ok (some (style, history'), p₁) ∧
      (styleChildren t style (.empty p₁.styler.settings.scanLimit) bs).run (p₁.enter t e) =
        .ok ((), p₂) ∧ p' = p₂.leave t e := by
  rw [styleBranch] at h
  obtain ⟨out, p₁, hstyle, h⟩ := exists_of_run_bind h
  match out with
  | none =>
    obtain ⟨rfl, rfl⟩ := Prod.mk.inj (Except.ok.inj h)
    exact .inl ⟨hstyle, rfl⟩
  | some (style, history₁) =>
    dsimp only at h
    rw [run_bind_of_ok (run_modifyStyler _ p₁), run_bind_of_ok (run_styler _)] at h
    obtain ⟨_, p₂, hchildren, h⟩ := exists_of_run_bind h
    obtain ⟨rfl, rfl⟩ := Prod.mk.inj (Except.ok.inj h)
    exact .inr ⟨style, p₁, p₂, hstyle, hchildren, rfl⟩

/-- What a pass over the children of an element that comes to an end consists of. -/
theorem exists_of_run_styleChildren
    (h : (styleChildren t style history (b :: bs)).run p = .ok ((), p')) :
    ∃ history₁ p₁, (styleBranch t (some style) history b).run (p.forgetNotes (t.key b.element)) =
      .ok (history₁, p₁) ∧ (styleChildren t style history₁ bs).run p₁ = .ok ((), p') := by
  rw [styleChildren, run_bind_of_ok (run_modifyStyler _ p)] at h
  exact exists_of_run_bind h

end Runs

/-! ## Stations -/

mutual
/-- The stations of a pass over a branch. It has none behind an element that cannot be styled. -/
def stationsOfBranch (t : StyledTree ε) (parent : Option ComputedStyle) (history : SiblingHistory)
    (b : Branch ε) (p : PassState) : List (Station ε) :=
  match b with
  | .node e cs =>
    ⟨e, parent, history, p⟩ ::
      match Station.style t ⟨e, parent, history, p⟩ with
      | .ok (some (style, _), p) =>
        stationsOfChildren t style (.empty p.styler.settings.scanLimit) cs (p.enter t e)
      | .ok (none, _) | .error _ => []
/-- The stations of a pass over the branches of the children of an element. -/
def stationsOfChildren (t : StyledTree ε) (style : ComputedStyle) (history : SiblingHistory)
    (bs : List (Branch ε)) (p : PassState) : List (Station ε) :=
  match bs with
  | [] => []
  | b :: bs =>
    stationsOfBranch t (some style) history b (p.forgetNotes (t.key b.element)) ++
      match (styleBranch t (some style) history b).run (p.forgetNotes (t.key b.element)) with
      | .ok (history, p) => stationsOfChildren t style history bs p
      | .error _ => []
end

/-- The station at which a pass over `e` starts. -/
def firstStation (s : Styler) (t : StyledTree ε) (parent : Option ComputedStyle) (e : ε) :
    Station ε :=
  ⟨e, parent, .empty s.settings.scanLimit, ⟨s.beginPass t e, .empty⟩⟩

/-- The stations of a pass over `e`, below the style `parent`. -/
def stations (s : Styler) (t : StyledTree ε) (parent : Option ComputedStyle) (e : ε) :
    List (Station ε) :=
  stationsOfBranch t parent (.empty s.settings.scanLimit) (t.branch e) ⟨s.beginPass t e, .empty⟩

mutual
/-- A pass over a branch that comes to an end has a station at every element that is met in it. -/
theorem map_element_stationsOfBranch (t : StyledTree ε) (b : Branch ε)
    {parent : Option ComputedStyle} {history history' : SiblingHistory} {p p' : PassState}
    (h : (styleBranch t parent history b).run p = .ok (history', p')) :
    (stationsOfBranch t parent history b p).map (·.element) = t.met b := by
  match b with
  | .node e cs =>
    rw [stationsOfBranch, StyledTree.met, List.map_cons]
    rcases cases_of_run_styleBranch h with ⟨hstyle, -⟩ | ⟨style, p₁, p₂, hstyle, hchildren, -⟩
    · have hcut : false = t.isConnected e := (out_of_styleElement hstyle).1
      rw [hstyle, ← hcut]
      rfl
    · have hconnected : true = t.isConnected e := (out_of_styleElement hstyle).1
      rw [hstyle, ← hconnected]
      exact congrArg (e :: ·) (map_element_stationsOfChildren t cs hchildren)
theorem map_element_stationsOfChildren (t : StyledTree ε) (bs : List (Branch ε))
    {style : ComputedStyle} {history : SiblingHistory} {p p' : PassState}
    (h : (styleChildren t style history bs).run p = .ok ((), p')) :
    (stationsOfChildren t style history bs p).map (·.element) = t.metOfAll bs := by
  match bs with
  | [] =>
    rw [stationsOfChildren, StyledTree.metOfAll]
    rfl
  | b :: bs =>
    obtain ⟨history₁, p₁, hbranch, hrest⟩ := exists_of_run_styleChildren h
    rw [stationsOfChildren, StyledTree.metOfAll, List.map_append, hbranch,
      map_element_stationsOfBranch t b hbranch]
    exact congrArg (t.met b ++ ·) (map_element_stationsOfChildren t bs hrest)
end

/-- A pass that comes to an end has a station at every element that is met, in document order. -/
theorem map_element_stations {s s' : Styler} {r : Report} {t : StyledTree ε} {e : ε}
    (hrun : s.restyle t e = .ok (s', r)) : ∃ parent, s.parentStyle t e = .ok parent ∧
      (s.stations t parent e).map (·.element) = t.met (t.branch e) := by
  obtain ⟨parent, history, hparent, hpass⟩ := exists_run_of_restyle hrun
  exact ⟨parent, hparent, map_element_stationsOfBranch t _ hpass⟩

end Styler

/-! ## Rules -/

/-- What is true along a pass with stations `stops`: at an element that is about to be styled, among
the children of an element when the branches `before` are done, and after the branch of an element.
Each of them leads to the next. -/
structure PassRule (t : StyledTree ε) (stops : List (Station ε)) (At : Station ε → Prop)
    (Among : Station ε → ComputedStyle → List (Branch ε) → SiblingHistory → PassState → Prop)
    (After : Station ε → SiblingHistory → PassState → Prop) : Prop where
  /-- An element that is cut off. -/
  cut : ∀ {a p}, a ∈ stops → At a → a.style t = .ok (none, p) → After a a.history p
  enter : ∀ {a style history p}, a ∈ stops → At a → a.style t = .ok (some (style, history), p) →
    Among a style [] (.empty p.styler.settings.scanLimit) (p.enter t a.element)
  child : ∀ {a style before c after history p},
    (t.branch a.element).children = before ++ c :: after → Among a style before history p →
    At (.ofChild t style history p c.element)
  next : ∀ {a style before c after history p history' p'},
    (t.branch a.element).children = before ++ c :: after → Among a style before history p →
    .ofChild t style history p c.element ∈ stops →
    (Styler.styleBranch t (some style) history c).run (p.forgetNotes (t.key c.element)) =
      .ok (history', p') →
    After (.ofChild t style history p c.element) history' p' →
    Among a style (before ++ [c]) history' p'
  leave : ∀ {a style history p history' p'}, a ∈ stops → At a →
    a.style t = .ok (some (style, history), p) →
    (Styler.styleChildren t style (.empty p.styler.settings.scanLimit)
      (t.branch a.element).children).run (p.enter t a.element) = .ok ((), p') →
    Among a style (t.branch a.element).children history' p' → After a history (p'.leave t a.element)

namespace PassRule

open Styler

variable {t : StyledTree ε} {stops : List (Station ε)} {At : Station ε → Prop}
  {Among : Station ε → ComputedStyle → List (Branch ε) → SiblingHistory → PassState → Prop}
  {After : Station ε → SiblingHistory → PassState → Prop}

mutual
theorem branch (h : PassRule t stops At Among After) (ht : t.Lawful) (b : Branch ε)
    (hb : t.branch b.element = b) {parent : Option ComputedStyle} {history : SiblingHistory}
    {p : PassState} (hstops : stationsOfBranch t parent history b p ⊆ stops)
    (hat : At ⟨b.element, parent, history, p⟩) :
    (∀ a ∈ stationsOfBranch t parent history b p, At a) ∧ ∀ history' p',
      (styleBranch t parent history b).run p = .ok (history', p') →
      After ⟨b.element, parent, history, p⟩ history' p' := by
  match b with
  | .node e cs =>
    have hchildren : (t.branch e).children = [] ++ cs := congrArg Branch.children hb
    rw [stationsOfBranch, List.cons_subset] at hstops
    obtain ⟨hfirst, hbelow⟩ := hstops
    rw [stationsOfBranch, List.forall_mem_cons]
    have below {style : ComputedStyle} {history' : SiblingHistory} {p₁ : PassState}
        (hstyle : Station.style t ⟨e, parent, history, p⟩ = .ok (some (style, history'), p₁)) :=
      h.children ht cs (a := ⟨e, parent, history, p⟩) hchildren
        (by rw [hstyle] at hbelow; exact hbelow) (h.enter hfirst hat hstyle)
    refine ⟨⟨hat, ?_⟩, fun history' p' hrun => ?_⟩
    · split
      · next style history' p₁ hstyle => exact (below hstyle).1
      · exact fun a ha => absurd ha List.not_mem_nil
      · exact fun a ha => absurd ha List.not_mem_nil
    · rcases cases_of_run_styleBranch hrun with
        ⟨hstyle, rfl⟩ | ⟨style, p₁, p₂, hstyle, hbelow, rfl⟩
      · exact h.cut hfirst hat hstyle
      · obtain ⟨history₂, hend⟩ := (below hstyle).2 p₂ hbelow
        rw [List.nil_append] at hchildren hend
        rw [← hchildren] at hbelow hend
        exact h.leave hfirst hat hstyle hbelow hend
theorem children (h : PassRule t stops At Among After) (ht : t.Lawful) {a : Station ε}
    {style : ComputedStyle} {before : List (Branch ε)} (bs : List (Branch ε))
    (hchildren : (t.branch a.element).children = before ++ bs) {history : SiblingHistory}
    {p : PassState} (hstops : stationsOfChildren t style history bs p ⊆ stops)
    (hamong : Among a style before history p) :
    (∀ a ∈ stationsOfChildren t style history bs p, At a) ∧ ∀ p',
      (styleChildren t style history bs).run p = .ok ((), p') →
      ∃ history', Among a style (before ++ bs) history' p' := by
  match bs with
  | [] =>
    rw [stationsOfChildren]
    refine ⟨fun a ha => absurd ha List.not_mem_nil, fun p' hrun => ⟨history, ?_⟩⟩
    obtain ⟨-, rfl⟩ := Prod.mk.inj (Except.ok.inj hrun)
    rwa [List.append_nil]
  | b :: bs =>
    have hb : b ∈ (t.branch a.element).children := by simp [hchildren]
    rw [stationsOfChildren, List.append_subset] at hstops
    obtain ⟨hfirst, hlater⟩ := hstops
    obtain ⟨hat, hafter⟩ :=
      h.branch ht b (ht.branch_child hb).1 hfirst (h.child hchildren hamong)
    have hmem : .ofChild t style history p b.element ∈ stops := by
      refine hfirst ?_
      obtain ⟨e, cs⟩ := b
      rw [stationsOfBranch]
      exact List.mem_cons_self
    have later {history' : SiblingHistory} {p' : PassState}
        (hrun : (styleBranch t (some style) history b).run (p.forgetNotes (t.key b.element)) =
          .ok (history', p')) :=
      h.children ht bs (a := a)
        (show (t.branch a.element).children = (before ++ [b]) ++ bs by simp [hchildren])
        (by rw [hrun] at hlater; exact hlater)
        (h.next hchildren hamong hmem hrun (hafter _ _ hrun))
    rw [stationsOfChildren, List.forall_mem_append]
    refine ⟨⟨hat, ?_⟩, fun p' hrun => ?_⟩
    · split
      · next history' p' hrun => exact (later hrun).1
      · exact fun a ha => absurd ha List.not_mem_nil
    · obtain ⟨history', p'', hrun, hrest⟩ := exists_of_run_styleChildren hrun
      obtain ⟨history'', hend⟩ := (later hrun).2 p' hrest
      exact ⟨history'', by simpa using hend⟩
end

/-- What is true at the start of a pass, and along it, is true at every station. -/
theorem stations {s : Styler} {parent : Option ComputedStyle} {e : ε}
    (h : PassRule t (s.stations t parent e) At Among After) (ht : t.Lawful)
    (hstart : At (s.firstStation t parent e)) : ∀ a ∈ s.stations t parent e, At a := by
  have helement := ht.element_branch e
  refine (h.branch ht (t.branch e) (congrArg t.branch helement) (List.Subset.refl _) ?_).1
  rw [helement]
  exact hstart

end PassRule

section Enduring

variable {t : StyledTree ε} {P : Styler → Prop}

/-- The digests stay as they are. -/
theorem Styler.enduring_digest (digest : Feature → Digest) :
    Enduring (fun _ => True) (·.digest = digest) where
  collect _ _ hs := hs
  store _ _ _ _ _ _ hs := hs
  move _ hs := hs

/-- What endures in a pass is true along it. -/
theorem Styler.Enduring.passRule (h : Enduring (fun _ => True) P) (stops : List (Station ε)) :
    PassRule t stops (fun a => P a.state.styler) (fun _ _ _ _ p => P p.styler)
      (fun _ _ p => P p.styler) where
  cut _ hat hstyle := h.keeps_styleElement trivial _ _ _ _ _ _ _ hat hstyle
  enter _ hat hstyle := h.move _ (h.keeps_styleElement trivial _ _ _ _ _ _ _ hat hstyle)
  child {_ _ _ c _ _ p} _ hamong :=
    h.store (p.styler.dependencies.forget (t.key c.element)) p.styler.styles p.styler.differences
      p.styler.rootFontSize p.styler.stamp (fun _ _ => rfl) hamong
  next _ _ _ _ hafter := hafter
  leave _ _ _ _ hend := h.move _ hend

/-- What endures in a pass, and holds at its start, holds at its stations. -/
theorem Styler.Enduring.stations (h : Enduring (fun _ => True) P) (ht : t.Lawful) {s : Styler}
    {e : ε} (hs : P (s.beginPass t e)) (parent : Option ComputedStyle) :
    ∀ a ∈ s.stations t parent e, P a.state.styler :=
  (h.passRule _).stations ht hs

end Enduring

end StyleEngine
