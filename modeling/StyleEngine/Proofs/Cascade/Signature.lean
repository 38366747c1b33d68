import StyleEngine.Pass.Sharing
import StyleEngine.Proofs.Cascade.Collect
import StyleEngine.Proofs.Computation.Declared

/-!
# What a signature determines

The declarations for an element are those of its hints, of the selectors that match it, and its
inline ones. All three are part of its signature, so elements with equal signatures have the same
declarations in the same order. Only zeros in hints and inline declarations may differ in sign.

## Main definitions

* `RuleIndex.signature`: the signature of an element with the selectors that match it.
* `Entry.plainForm`: an entry with a plain declaration.

## Main statements

* `RuleIndex.map_plainForm_gather`: elements with equal signatures have the same entries.
-/

namespace StyleEngine

variable {ε : Type}

/-! ## Entries -/

namespace Entry

/-- The entry with the plain declaration. -/
def plainForm (entry : Entry) : Entry :=
  { entry with declaration := entry.declaration.plainForm }

theorem map_plainForm_ofBlock (block : DeclarationBlock) (origin : Origin)
    (selector : Option SelectorId) (specificity : Specificity) (sourceOrder : UInt32) :
    (ofBlock block origin selector specificity sourceOrder).map plainForm =
      ofBlock (block.map Declaration.plainForm) origin selector specificity sourceOrder := by
  rw [ofBlock, ofBlock, List.zipIdx_map, List.map_map, List.map_map]
  rfl

theorem map_plainForm_sortBy (l : List Entry) :
    (Priority.sortBy priority l).map plainForm = Priority.sortBy priority (l.map plainForm) :=
  List.map_mergeSort fun _ _ _ _ => rfl

/-- Equal blocks, if there are any, have entries of one plain form. -/
theorem map_plainForm_elim_of_beq {make : DeclarationBlock → List Entry}
    (hmake : ∀ block, (make block).map plainForm = make (block.map Declaration.plainForm))
    {o o' : Option DeclarationBlock} (h : (o == o') = true) :
    (o.elim [] make).map plainForm = (o'.elim [] make).map plainForm := by
  cases o <;> cases o'
  · rfl
  · cases h
  · cases h
  · rw [Option.elim_some, Option.elim_some, hmake, hmake,
      DeclarationBlock.map_plainForm_eq_of_beq h]

end Entry

/-! ## Selectors that match -/

namespace RuleIndex

variable (index : RuleIndex)

/-- What is gathered hangs on the selectors that match and on the hints and inline declarations. -/
theorem entriesOf_gather (t : StyledTree ε) (e : ε) (target : Option PseudoElement) :
    (index.gather t e).entriesOf target = Priority.sortBy Entry.priority
      ((if target = none then (t.hints? e).elim [] Entry.ofHints else []) ++
        (index.gather t e).matched.flatMap (index.entriesFor target) ++
        if target = none then (t.inline? e).elim [] Entry.ofInline else []) := by
  have hempty : Collected.empty.entriesOf target = [] := by cases target <;> rfl
  have hmatched : (index.gather t e).matched =
      (index.lookup t.toElementTree e).filter (index.answers t.toElementTree e) := by
    refine (index.matched_foldl_gatherSelector ?_ _).trans (List.nil_append _)
    intro id hid
    have hanswers := (List.mem_filter.mp hid).2
    rw [answers, Option.any_eq_true] at hanswers
    obtain ⟨found, hfound, -⟩ := hanswers
    rw [targeted?, hfound]
    rfl
  rw [hmatched, gather, Collected.entriesOf_sort, Collected.entriesOf_extend,
    entriesOf_foldl_gatherSelector, Collected.entriesOf_extend, hempty, List.nil_append]
  simp only [eq_comm (a := target)]

/-! ## Signatures -/

/-- The signature of an element, with the selectors that match it. -/
def signature (t : StyledTree ε) (e : ε) : Signature :=
  .ofElement t e (index.gather t e).matched

/-- Elements with equal signatures have the same entries, but for the signs of zeros. -/
theorem map_plainForm_gather {t : StyledTree ε} {a b : ε}
    (h : (index.signature t a == index.signature t b) = true) (target : Option PseudoElement) :
    ((index.gather t a).entriesOf target).map Entry.plainForm =
      ((index.gather t b).entriesOf target).map Entry.plainForm := by
  have hbeq : (index.signature t a == index.signature t b) =
      (Text.foldCase (t.tag a) == Text.foldCase (t.tag b) && (t.id? a == t.id? b &&
        ((index.signature t a).classes == (index.signature t b).classes &&
          (t.state a == t.state b && (t.inline? a == t.inline? b && (t.hints? a == t.hints? b &&
            (index.gather t a).matched == (index.gather t b).matched)))))) := rfl
  rw [hbeq] at h
  simp only [Bool.and_eq_true] at h
  obtain ⟨-, -, -, -, hinline, hhints, hmatched⟩ := h
  have hpart (make : DeclarationBlock → List Entry)
      (hmake : ∀ block, (make block).map Entry.plainForm = make (block.map Declaration.plainForm))
      {o o' : Option DeclarationBlock} (ho : (o == o') = true) :
      (if target = none then o.elim [] make else []).map Entry.plainForm =
        (if target = none then o'.elim [] make else []).map Entry.plainForm := by
    split
    · exact Entry.map_plainForm_elim_of_beq hmake ho
    · rfl
  simp only [entriesOf_gather, Entry.map_plainForm_sortBy, List.map_append]
  rw [hpart Entry.ofHints (fun _ => Entry.map_plainForm_ofBlock ..) hhints,
    hpart Entry.ofInline (fun _ => Entry.map_plainForm_ofBlock ..) hinline, eq_of_beq hmatched]

end RuleIndex

end StyleEngine
