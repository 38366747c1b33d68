import StyleEngine.Proofs.Cascade.Collect
import StyleEngine.Proofs.Computation.Apply

/-!
# Sheets and trees with fitting values

If every declaration of the active rules fits its property, and so does every declaration that
stands at an element, then all that is collected fits.

## Main definitions

* `SheetSet.Fitting`, `RuleIndex.Fitting`, `StyledTree.Fitting`, `Collected.Fitting`: all
  declarations fit.

## Main statements

* `RuleIndex.fitting_gather`: what is collected for an element fits.
* `RuleIndex.Fitting.collect`: it fits whatever the memory answers.
-/

namespace StyleEngine

variable {ε : Type}

/-- Sheets whose active rules declare values that fit. -/
def SheetSet.Fitting (set : SheetSet) (m : Medium) : Prop :=
  ∀ entry ∈ RuleIndex.activeRules set m, ∀ d ∈ entry.2.declarations, d.Fits

/-- An index whose rules declare values that fit. -/
def RuleIndex.Fitting (index : RuleIndex) : Prop :=
  ∀ rule ∈ index.rules, ∀ d ∈ rule.declarations, d.Fits

/-- A tree below whose `root` the declarations at elements fit. -/
def StyledTree.Fitting (t : StyledTree ε) (root : ε) : Prop :=
  ∀ e ∈ (t.branch root).elements, ∀ block, block ∈ t.hints? e ∨ block ∈ t.inline? e →
    ∀ d ∈ block, d.Fits

theorem Entry.fits_ofBlock {block : DeclarationBlock} (h : ∀ d ∈ block, d.Fits)
    {origin : Origin} {selector : Option SelectorId} {specificity : Specificity}
    {sourceOrder : UInt32} {entry : Entry}
    (hentry : entry ∈ ofBlock block origin selector specificity sourceOrder) :
    entry.declaration.Fits := by
  obtain ⟨⟨d, place⟩, hd, rfl⟩ := List.mem_map.mp hentry
  exact h d (List.fst_mem_of_mem_zipIdx hd)

namespace Collected

/-- Every list of entries has declarations that fit. -/
def Fitting (c : Collected) : Prop :=
  ∀ target, ∀ entry ∈ c.entriesOf target, entry.declaration.Fits

theorem Fitting.extend {c : Collected} (h : c.Fitting) {es : List Entry}
    (hes : ∀ entry ∈ es, entry.declaration.Fits) (target : Option PseudoElement) :
    (c.extend target es).Fitting := by
  intro target' entry hentry
  rw [Collected.entriesOf_extend] at hentry
  rcases List.mem_append.mp hentry with hentry | hentry
  · exact h target' entry hentry
  · split at hentry
    · exact hes entry hentry
    · simp at hentry

theorem fitting_empty : empty.Fitting := by
  intro target entry hentry
  cases target <;> exact absurd hentry List.not_mem_nil

theorem Fitting.sort {c : Collected} (h : c.Fitting) : c.sort.Fitting := by
  intro target entry hentry
  rw [entriesOf_sort, Priority.sortBy, List.mem_mergeSort] at hentry
  exact h target entry hentry

end Collected

/-! ## Collecting from any memory -/

namespace MatchM

variable {α β : Type} {P : α → Prop} {Q : β → Prop}

/-- Whatever the memory, the answer has a property. -/
def Yields (x : MatchM α) (P : α → Prop) : Prop :=
  ∀ m, P (x.run m).1

theorem yields_pure {a : α} (h : P a) : (pure a : MatchM α).Yields P :=
  fun _ => h

theorem Yields.bind {x : MatchM α} {f : α → MatchM β} (hx : x.Yields P)
    (hf : ∀ a, P a → (f a).Yields Q) : (x >>= f).Yields Q :=
  fun m => hf _ (hx m) _

end MatchM

namespace RuleIndex

open MatchM

variable {set : SheetSet} {m : Medium}

theorem fitting_build (hset : set.Fitting m) : (build set m).Fitting := by
  intro rule hrule
  obtain ⟨n, hn⟩ := Array.mem_iff_getElem?.mp hrule
  rw [getElem?_rules_build] at hn
  obtain ⟨entry, hentry, rfl⟩ := Option.map_eq_some_iff.mp hn
  exact hset entry (List.mem_of_getElem? hentry)

section Collect

variable {κ : Type} [BEq κ] [Hashable κ] {digest : Feature → κ}
  {filter : Option (AncestorFilter κ)} {index : RuleIndex} (h : index.Fitting)

include h

/-- Whichever selectors match, what their rules declare fits. -/
theorem Fitting.collectSelector (t : ElementTree ε) (e : ε) {c : Collected} (hc : c.Fitting)
    (id : SelectorId) :
    (collectSelector digest filter index t e c id).Yields Collected.Fitting := by
  unfold RuleIndex.collectSelector
  split
  · exact yields_pure hc
  · next rule selector specificity hid =>
    obtain ⟨rule', hrule, hrest⟩ := Option.bind_eq_some_iff.mp hid
    obtain ⟨selector', -, hrest⟩ := Option.bind_eq_some_iff.mp hrest
    obtain ⟨rfl, -⟩ := Prod.mk.inj (Option.some.inj hrest)
    have hrule : rule' ∈ index.rules := Array.mem_of_getElem? hrule
    refine Yields.bind (P := fun _ => True) (fun _ => trivial) fun verdict _ => ?_
    split
    · exact yields_pure
        (hc.extend (fun entry => Entry.fits_ofBlock (h rule' hrule)) verdict.pseudo?)
    · exact yields_pure hc

theorem Fitting.collect {t : StyledTree ε} {root e : ε} (ht : t.Fitting root)
    (he : e ∈ (t.branch root).elements) :
    (index.collect digest filter t e).Yields Collected.Fitting := by
  have hhints : ∀ entry ∈ (t.hints? e).elim [] Entry.ofHints, entry.declaration.Fits := by
    cases hblock : t.hints? e with
    | none => exact fun entry hentry => absurd hentry List.not_mem_nil
    | some block => exact fun entry => Entry.fits_ofBlock (ht e he block (.inl hblock))
  have hinline : ∀ entry ∈ (t.inline? e).elim [] Entry.ofInline, entry.declaration.Fits := by
    cases hblock : t.inline? e with
    | none => exact fun entry hentry => absurd hentry List.not_mem_nil
    | some block => exact fun entry => Entry.fits_ofBlock (ht e he block (.inr hblock))
  have hfold (l : List SelectorId) {c : Collected} (hc : c.Fitting) :
      (l.foldlM (RuleIndex.collectSelector digest filter index t.toElementTree e) c).Yields
        Collected.Fitting := by
    induction l generalizing c with
    | nil => exact yields_pure hc
    | cons id l ih =>
      rw [List.foldlM_cons]
      exact (h.collectSelector t.toElementTree e hc id).bind fun c hc => ih hc
  exact (hfold _ (Collected.fitting_empty.extend hhints none)).bind fun c hc =>
    yields_pure (hc.extend hinline none).sort

end Collect

/-- What is collected for an element fits. -/
theorem fitting_gather (hset : set.Fitting m) {t : StyledTree ε} {root e : ε}
    (ht : t.Fitting root) (he : e ∈ (t.branch root).elements) :
    ((build set m).gather t e).Fitting := by
  rw [← run_collect_none]
  exact (fitting_build hset).collect ht he .none

end RuleIndex

end StyleEngine
