import StyleEngine.Proofs.Matching.Negation
import StyleEngine.Proofs.Selector.Specificity

/-!
# Matching and the order of simple selectors

A compound asks for all of its simple selectors, so their order decides only how soon a test fails.
Whether a user action is bare is asked of all of them too. So selectors that are rearranged, also
inside negations, match alike.

## Main statements

* `Compound.Rearranged.holds_eq`: rearranged compounds hold at the same elements.
* `Complex.Rearranged.outcome_eq`: rearranged selectors come to the same outcome.
-/

namespace StyleEngine

variable {ε : Type} {t : ElementTree ε} {mode : DocumentMode} {isSubject : Bool} {e : ε}

namespace Compound

variable {c c' : Compound}

/-- Two compounds that are both bare, or both narrowed down, are judged alike. -/
theorem holdsAll_congr_whole {whole whole' : Compound}
    (h : whole.isBareUserAction = whole'.isBareUserAction) (c : Compound) :
    holdsAll t mode isSubject whole e c = holdsAll t mode isSubject whole' e c := by
  rw [Bool.eq_iff_iff, holdsAll_iff, holdsAll_iff]
  exact forall₂_congr fun s _ => ⟨Simple.holds_mono (by simp [h]), Simple.holds_mono (by simp [h])⟩

theorem Rearranged.isBareUserAction_eq (h : c.Rearranged c') :
    c.isBareUserAction = c'.isBareUserAction := by
  induction h with
  | here h => exact h.all_eq
  | inside before after _ _ => simp [isBareUserAction]
  | trans _ _ ih ih' => exact ih.trans ih'

/-- Inside a negation both the list of tests and the compound that they belong to are rearranged;
the latter only matters by whether it is bare. -/
theorem Rearranged.holdsAll_eq (h : c.Rearranged c') (whole : Compound) :
    holdsAll t mode isSubject whole e c = holdsAll t mode isSubject whole e c' := by
  induction h generalizing isSubject whole with
  | here h =>
    rw [Bool.eq_iff_iff, holdsAll_iff, holdsAll_iff]
    simp only [h.mem_iff]
  | @inside before after inner inner' hinner ih =>
    have hnegation : (Simple.negation inner).holds t mode isSubject whole e =
        (Simple.negation inner').holds t mode isSubject whole e := by
      rw [Simple.holds, Simple.holds, ih inner,
        holdsAll_congr_whole (Rearranged.isBareUserAction_eq hinner)]
    rw [Bool.eq_iff_iff, holdsAll_iff, holdsAll_iff]
    simp only [List.forall_mem_append, List.forall_mem_cons, hnegation]
  | trans _ _ ih ih' => exact (ih whole).trans (ih' whole)

/-- Rearranged compounds hold at the same elements. -/
theorem Rearranged.holds_eq (h : c.Rearranged c') :
    c.holds t mode isSubject e = c'.holds t mode isSubject e :=
  (h.holdsAll_eq c).trans (holdsAll_congr_whole h.isBareUserAction_eq c')

end Compound

namespace Complex

theorem outcomeLeft_of_rearranged {left left' : List (Combinator × Compound)}
    (h : List.Forall₂ (fun a b => a.1 = b.1 ∧ a.2.Rearranged b.2) left left') :
    outcomeLeft t mode left = outcomeLeft t mode left' := by
  induction h with
  | nil => rfl
  | @cons head head' left left' h _ ih =>
    obtain ⟨combinator, c⟩ := head
    obtain ⟨combinator', c'⟩ := head'
    obtain ⟨rfl, hc⟩ : combinator = combinator' ∧ c.Rearranged c' := h
    have hfrom : outcomeFrom t mode c left = outcomeFrom t mode c' left' := by
      funext a
      rw [outcomeFrom, outcomeFrom, hc.holds_eq, ih]
    funext e
    rw [outcomeLeft_cons, outcomeLeft_cons, hfrom]

variable {s s' : Complex}

/-- Rearranged selectors come to the same outcome. -/
theorem Rearranged.outcome_eq (h : s.Rearranged s') :
    s.outcome t mode e = s'.outcome t mode e := by
  rw [outcome, outcome, h.subject.holds_eq, outcomeLeft_of_rearranged h.left]

/-- What is rearranged compound by compound has its compounds in one order. -/
theorem Rearranged.reordered (h : s.Rearranged s') : s.Reordered s' := by
  refine ⟨s.compounds, .refl _, .cons h.subject ?_⟩
  rw [List.forall₂_map_left_iff, List.forall₂_map_right_iff]
  exact h.left.imp fun _ _ => And.right

/-- Simple selectors are sorted by rank, those of one rank as they were given, whether the compound
is built at once or by adding one after the other. Neither what becomes of a selector at an element
nor its weight hangs on how the simple selectors of its compounds are arranged, also inside
negations. -/
theorem Rearranged.match?_eq {κ : Type} [BEq κ] [Hashable κ] (h : s.Rearranged s')
    (digest : Feature → κ) (t : ElementTree ε) (mode : DocumentMode) (id id' : Option SelectorId)
    (e : ε) (dependencies dependencies' : Option DependencyTable) (l : List Simple) :
    (Compound.ofSimples l = l.foldl Compound.add [] ∧
        Compound.SortedFrom l (Compound.ofSimples l)) ∧
      ((s.match? digest t mode none id e).run ⟨none, dependencies⟩).1.outcome =
        ((s'.match? digest t mode none id' e).run ⟨none, dependencies'⟩).1.outcome ∧
      s.specificity = s'.specificity := by
  refine ⟨⟨Compound.ofSimples_eq_foldl_add l, Compound.sortedFrom_ofSimples l⟩, ?_,
    h.reordered.specificity_eq.symm⟩
  rw [run_match?_of_uncached digest t mode id s e rfl,
    run_match?_of_uncached digest t mode id' s' e rfl]
  exact h.outcome_eq

/-- In quirks mode a hovered child of the family is found by `ul > li:not(:hover)`, or not, whichever
way round its simple selectors stand, and whichever way round those inside the negation. -/
theorem Rearranged.match?_eq_family :
    let t := (Relative.tree fun _ => .ofFlags [.hover]).toElementTree
    let s : Complex := ⟨[.tag "li", .negation [.pseudoClass .hover, .universal]],
      [(.child, [.tag "ul"])]⟩
    let s' : Complex := ⟨[.negation [.universal, .pseudoClass .hover], .tag "li"],
      [(.child, [.tag "ul"])]⟩
    let l : List Simple := [.negation [.universal], .className "b", .tag "li", .className "a"]
    s.Rearranged s' ∧
      (Compound.ofSimples l = l.foldl Compound.add [] ∧
        Compound.SortedFrom l (Compound.ofSimples l)) ∧
      ((s.match? id t .quirks none none Relative.younger).run .none).1.outcome =
        ((s'.match? id t .quirks none none Relative.younger).run .none).1.outcome ∧
      s.specificity = s'.specificity := by
  intro t s s' l
  have hinner : Compound.Rearranged [.pseudoClass .hover, .universal]
      [.universal, .pseudoClass .hover] := .here (.swap _ _ _)
  have h : s.Rearranged s' :=
    ⟨.trans (hinner.inside [.tag "li"] []) (.here (.swap _ _ _)),
      .cons ⟨rfl, .here (.refl _)⟩ .nil⟩
  exact ⟨h, h.match?_eq id t .quirks none none .younger none none l⟩

end Complex

end StyleEngine
