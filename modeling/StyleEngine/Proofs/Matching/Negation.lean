import StyleEngine.Proofs.Matching.Change
import StyleEngine.Proofs.Matching.Filter
import StyleEngine.Proofs.Selector.Arrangement
import StyleEngine.Proofs.Tree.Family

/-!
# Negations

A condition that is added to a compound, and its negation, are judged at the same element, and of the
two exactly one holds. There is one exception. A negation judges what it holds as a compound by
itself, and in quirks mode a user action by itself is bare, whatever stands around the negation. So
an element that does not react is hovered for a compound that narrows the user action down, and not
hovered for the negation.

## Main definitions

* `Simple.userAction?`: the user action that a simple selector asks for.
* `Compound.Splits`: the exception.

## Main statements

* `Compound.test_add_negation`: exactly one of a condition and its negation holds, but for the
  exception, in which both do.
-/

namespace StyleEngine

variable {ε : Type} {t : ElementTree ε} {mode : DocumentMode} {isSubject : Bool} {e : ε}

/-! ## Added conditions -/

namespace Compound

/-- What is added narrows a compound down, unless it is a user action or narrows nothing down. -/
theorem isBareUserAction_add (c : Compound) (s : Simple) :
    (c.add s).isBareUserAction = (isBareUserAction [s] && c.isBareUserAction) := by
  simp only [isBareUserAction, (c.perm_add s).all_eq, List.all_cons, List.all_nil, Bool.and_true]

end Compound

namespace Simple

/-- The user action that a simple selector asks for. -/
def userAction? : Simple → Option StateFlag
  | pseudoClass .hover => some .hover
  | pseudoClass .active => some .active
  | _ => none

variable {s : Simple} {whole : Compound} {flag : StateFlag}

theorem holds_of_userAction (h : s.userAction? = some flag) :
    s.holds t mode isSubject whole e = t.userActionHolds mode whole e flag := by
  unfold userAction? at h
  split at h <;> cases h <;> rfl

theorem isBareUserAction_of_userAction (h : s.userAction? = some flag) :
    Compound.isBareUserAction [s] = true := by
  unfold userAction? at h
  split at h <;> first | rfl | cases h

/-- All but user actions are judged alike in every compound. -/
theorem holds_congr_whole (h : s.userAction? = none) (whole' : Compound) :
    s.holds t mode isSubject whole e = s.holds t mode isSubject whole' e := by
  cases s with
  | pseudoClass p =>
    simp only [Simple.holds]
    cases p <;> first | rfl | cases h
  | _ => simp only [Simple.holds]

/-- All but pseudo-elements are judged alike at the subject and elsewhere. -/
theorem holds_congr_subject (h : ∀ p, s ≠ pseudoElement p) (isSubject' : Bool) :
    s.holds t mode isSubject whole e = s.holds t mode isSubject' whole e := by
  cases s with
  | pseudoElement p => exact absurd rfl (h p)
  | _ => simp only [Simple.holds]

/-- What holds in a compound holds in one that narrows it down. -/
theorem holds_mono {whole' : Compound}
    (hbare : whole'.isBareUserAction = true → whole.isBareUserAction = true)
    (h : s.holds t mode isSubject whole e = true) : s.holds t mode isSubject whole' e = true := by
  cases haction : s.userAction? with
  | none => rwa [holds_congr_whole haction whole]
  | some flag =>
    rw [holds_of_userAction haction, ElementTree.userActionHolds_eq] at h ⊢
    grind

/-- A negation judges what it holds as a compound by itself. -/
theorem holds_negation (s : Simple) :
    (negation [s]).holds t mode isSubject whole e = !s.holds t mode false [s] e := by
  simp [Simple.holds, Compound.holdsAll]

end Simple

namespace Compound

/-- Added to a compound that holds, a condition decides. -/
theorem holds_add {c : Compound} (hc : c.holds t mode isSubject e = true) (s : Simple) :
    (c.add s).holds t mode isSubject e = s.holds t mode isSubject (c.add s) e := by
  have hrest : ∀ x ∈ c, x.holds t mode isSubject (c.add s) e = true := fun x hx => by
    refine Simple.holds_mono (fun hbare => ?_) (simple_holds hc hx)
    rw [isBareUserAction_add, Bool.and_eq_true] at hbare
    exact hbare.2
  rw [Bool.eq_iff_iff, holds, holdsAll_iff]
  simp only [mem_add, forall_eq_or_imp]
  exact ⟨And.left, fun hs => ⟨hs, hrest⟩⟩

/-- In quirks mode, a user action that the element is the target of without reacting to it, and that
the rest of the compound narrows down. -/
structure Splits (t : ElementTree ε) (mode : DocumentMode) (c : Compound) (e : ε) (s : Simple) :
    Prop where
  quirks : mode = .quirks
  acted : ∃ flag, s.userAction? = some flag ∧ (t.state e).has flag = true
  still : (t.state e).reacts = false
  narrowed : c.isBareUserAction = false

/-- To a compound that holds at an element, a condition other than a pseudo-element is added, or its
negation. One of the two compounds holds at the element and the other one does not, unless the
condition is a user action that is judged otherwise inside the negation; then both hold. -/
theorem test_add_negation {c : Compound} {m : MatchMemory}
    (hc : ((c.test t mode isSubject e).run m).1 = true) {s : Simple}
    (hs : ∀ p, s ≠ .pseudoElement p) (m' m'' : MatchMemory) :
    let added := (((c.add s).test t mode isSubject e).run m').1
    let negated := (((c.add (.negation [s])).test t mode isSubject e).run m'').1
    ((added ^^ negated) = true ↔ ¬Splits t mode c e s) ∧
      (Splits t mode c e s → added = true ∧ negated = true) := by
  rw [(c.tells_test t mode isSubject e) m] at hc
  rw [((c.add s).tells_test t mode isSubject e) m',
    ((c.add (.negation [s])).tells_test t mode isSubject e) m'']
  dsimp only at hc ⊢
  rw [holds_add hc, holds_add hc, Simple.holds_negation]
  cases haction : s.userAction? with
  | none =>
    have hsplits : ¬Splits t mode c e s := by
      rintro ⟨-, ⟨flag, hflag, -⟩, -, -⟩
      cases haction.symm.trans hflag
    rw [Simple.holds_congr_whole haction [s], Simple.holds_congr_subject hs false]
    simp [hsplits]
  | some flag =>
    have hsplits : Splits t mode c e s ↔ mode = .quirks ∧ (t.state e).has flag = true ∧
        (t.state e).reacts = false ∧ c.isBareUserAction = false := by
      constructor
      · rintro ⟨hquirks, ⟨flag', hflag', hacted⟩, hstill, hnarrowed⟩
        obtain rfl := Option.some.inj (haction.symm.trans hflag')
        exact ⟨hquirks, hacted, hstill, hnarrowed⟩
      · rintro ⟨hquirks, hacted, hstill, hnarrowed⟩
        exact ⟨hquirks, ⟨flag, haction, hacted⟩, hstill, hnarrowed⟩
    rw [hsplits, Simple.holds_of_userAction haction, Simple.holds_of_userAction haction,
      ElementTree.userActionHolds_eq, ElementTree.userActionHolds_eq, isBareUserAction_add,
      Simple.isBareUserAction_of_userAction haction]
    cases mode <;> cases (t.state e).has flag <;> cases (t.state e).reacts <;>
      cases c.isBareUserAction <;> decide

/-- A hovered parent of the family, in standards mode. -/
theorem test_add_negation_family :
    let t := (Relative.tree fun _ => .ofFlags [.hover]).toElementTree
    let c : Compound := [.tag "ul"]
    let s : Simple := .pseudoClass .hover
    let added := (((c.add s).test t .standards true .parent).run .none).1
    let negated := (((c.add (.negation [s])).test t .standards true .parent).run .none).1
    ((c.test t .standards true .parent).run .none).1 = true ∧
      ((added ^^ negated) = true ↔ ¬Splits t .standards c .parent s) ∧
      (Splits t .standards c .parent s → added = true ∧ negated = true) := by
  intro t c s added negated
  have hc : ((c.test t .standards true .parent).run .none).1 = true := by decide +kernel
  exact ⟨hc, test_add_negation hc (s := s) nofun .none .none⟩

/-- In quirks mode, the parent of the family is hovered and is not. -/
theorem test_add_negation_quirks :
    let t := (Relative.tree fun _ => .ofFlags [.hover]).toElementTree
    let c : Compound := [.tag "ul"]
    let s : Simple := .pseudoClass .hover
    ((c.test t .quirks true .parent).run .none).1 = true ∧
      (((c.add s).test t .quirks true .parent).run .none).1 = true ∧
      (((c.add (.negation [s])).test t .quirks true .parent).run .none).1 = true := by
  decide +kernel

end Compound

end StyleEngine
