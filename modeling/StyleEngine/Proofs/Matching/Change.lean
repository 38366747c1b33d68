import StyleEngine.Proofs.Matching.Congruence

/-!
# Matching after a change of state

Matching reads the state of an element through flags that it notes, with one exception: in quirks
mode a bare user action is restricted to elements that react to it, and what makes them react is not
noted. Up to this exception, readings whose flags are as they were are blind to a change of state.

## Main definitions

* `ElementTree.withState`, `StyledTree.withState`: a tree whose elements have other states.
* `ElementTree.Unread`: a change of state that a reading does not see.
* `PseudoClass.isBare`: whether in quirks mode a test hangs on `ElementState.reacts` as well.

## Main statements

* `ElementTree.agrees_withState`: trees that differ in states agree for readings that see none of
  it, if in quirks mode bare user actions are left out or their elements react as before.
-/

namespace StyleEngine

variable {ε : Type}

namespace ElementTree

/-- The tree with other states. -/
def withState (t : ElementTree ε) (state : ε → ElementState) : ElementTree ε :=
  { t with state := state }

/-- Whether the flags of a reading are the same in other states. -/
def Unread (t : ElementTree ε) (state : ε → ElementState) (r : ε × List DependencyKind) : Prop :=
  ∀ f : StateFlag, f.kind ∈ r.2 → (state r.1).has f = (t.state r.1).has f

variable {t : ElementTree ε} {state : ε → ElementState} {e : ε}

theorem Lawful.withState (ht : t.Lawful) (state : ε → ElementState) :
    (t.withState state).Lawful where
  ancestors_eq := ht.ancestors_eq
  preceding_eq := ht.preceding_eq
  following_eq := ht.following_eq

end ElementTree

open ElementTree

variable {t : ElementTree ε} {state : ε → ElementState} {e : ε}

/-- Whether an element reacts to a user action that nothing else narrows down. -/
def ElementState.reacts (s : ElementState) : Bool :=
  s.has .link || s.has .focusable

/-- Whether a pseudo-class of the compound `c` is a user action that nothing narrows down. -/
def PseudoClass.isBare (p : PseudoClass) (c : Compound) : Bool :=
  match p with
  | .hover | .active => c.isBareUserAction
  | _ => false

theorem ElementTree.userActionHolds_eq (t : ElementTree ε) (mode : DocumentMode) (c : Compound)
    (e : ε) (flag : StateFlag) :
    t.userActionHolds mode c e flag =
      ((t.state e).has flag &&
        (mode == .standards || (!c.isBareUserAction || (t.state e).reacts))) := by
  rw [userActionHolds, ElementState.reacts, Bool.or_assoc, Bool.or_assoc]

theorem PseudoClass.readings_withState (p : PseudoClass) :
    p.readings (t.withState state) e = p.readings t e := by
  cases p <;> rfl

/-- A pseudo-class notes all flags that it reads, except those that tell whether an element
reacts. -/
theorem PseudoClass.holds_withState {mode : DocumentMode} {p : PseudoClass} {c : Compound}
    (h : ∀ r ∈ p.readings t e, t.Unread state r)
    (hreacts : mode = .quirks → p.isBare c = true → (state e).reacts = (t.state e).reacts) :
    p.holds (t.withState state) mode c e = p.holds t mode c e := by
  have read {kinds : List DependencyKind} (h : ∀ r ∈ [(e, kinds)], t.Unread state r)
      (f : StateFlag) (hf : f.kind ∈ kinds) : (state e).has f = (t.state e).has f :=
    h (e, kinds) List.mem_cons_self f hf
  have action (flag : StateFlag) (hf : (state e).has flag = (t.state e).has flag)
      (hreacts : mode = .quirks → c.isBareUserAction = true →
        (state e).reacts = (t.state e).reacts) :
      (t.withState state).userActionHolds mode c e flag = t.userActionHolds mode c e flag := by
    rw [userActionHolds_eq, userActionHolds_eq, ← hf]
    cases mode with
    | standards => rfl
    | quirks =>
      cases hbare : c.isBareUserAction with
      | false => rfl
      | true => rw [← hreacts rfl hbare]; rfl
  cases p with
  | hover => exact action .hover (read h .hover (by decide)) hreacts
  | active => exact action .active (read h .active (by decide)) hreacts
  | focus => exact read h .focus (by decide)
  | link =>
    have hlink := read h .link (by decide)
    have hvisited := read h .visited (by decide)
    simp only [holds, ElementTree.withState, hlink, hvisited]
  | visited => exact read h .visited (by decide)
  | enabled => exact read h .enabled (by decide)
  | disabled => exact read h .disabled (by decide)
  | checked => exact read h .checked (by decide)
  | target => exact read h .target (by decide)
  | _ => rfl

/-- A change of state is seen by readings of flags that change, and in quirks mode by bare user
actions at elements that no longer react as before. -/
theorem ElementTree.agrees_withState (t : ElementTree ε) (state : ε → ElementState)
    {mode : DocumentMode} {blind : ε × List DependencyKind → Prop}
    {asked : PseudoClass → Compound → Bool} (hunread : ∀ {r}, blind r → t.Unread state r)
    (hreacts : mode = .quirks → ∀ {p c e}, asked p c = true → p.isBare c = true →
      (∀ r ∈ p.readings t e, blind r) → (state e).reacts = (t.state e).reacts) :
    t.Agrees (t.withState state) mode (fun _ => True) blind asked where
  key := rfl
  tag := rfl
  id? := rfl
  classes := rfl
  attribute? := rfl
  pseudoClass p _ hasked _ h :=
    ⟨p.holds_withState (fun r hr => hunread (h r hr)) fun hmode hp => hreacts hmode hasked hp h,
      p.readings_withState⟩
  combinator combinator _ _ := by cases combinator <;> exact ⟨rfl, rfl, rfl⟩
  candidate _ _ _ _ := trivial

namespace StyledTree

/-- The tree with other states. -/
def withState (t : StyledTree ε) (state : ε → ElementState) : StyledTree ε :=
  { t with state := state }

variable {t : StyledTree ε} {root : ε}

theorem Lawful.withState (ht : t.Lawful) (state : ε → ElementState) :
    (t.withState state).Lawful where
  toLawful := ht.toLawful.withState state
  element_branch := ht.element_branch
  branch_child := ht.branch_child
  siblings_child := ht.siblings_child

theorem Rooted.withState (ht : t.Rooted root) (state : ε → ElementState) :
    (t.withState state).Rooted root where
  lawful := ht.lawful.withState state
  ancestors_root := ht.ancestors_root
  preceding_root := ht.preceding_root
  key_injective := ht.key_injective
  connected := ht.connected

/-- In standards mode a change of state is seen by readings of flags that change, and by nothing
else. -/
theorem agrees_withState (t : StyledTree ε) (state : ε → ElementState) :
    t.Agrees (t.withState state) .standards (fun _ => True)
      (t.toElementTree.Unread state) where
  toAgrees := t.toElementTree.agrees_withState state (fun h => h) nofun
  inline? := rfl
  hints? := rfl

end StyledTree

end StyleEngine
