import Mathlib.Data.List.Forall2
import StyleEngine.Selector.Basic

/-!
# Arrangements of simple selectors

A compound is put together from a list of simple selectors, all at once or one after the other.
Either way they come to stand in the order of testing, and those of one rank in the order in which
they were given. Nothing else hangs on how they are arranged, and neither does anything on how they
are inside negations.

## Main definitions

* `Compound.SortedFrom`: what it means to sort by rank.
* `Compound.Throughout`: a change of a compound, at the top or inside negations.
* `Compound.Rearranged`, `Complex.Rearranged`: other arrangements of the same simple selectors.

## Main statements

* `Compound.SortedFrom.unique`: there is one way to sort.
* `Compound.sortedFrom_ofSimples`, `Compound.sortedFrom_foldl_add`: both builders sort.
-/

namespace StyleEngine

namespace Compound

/-! ## The order of testing -/

theorem perm_add (c : Compound) (s : Simple) : (c.add s).Perm (s :: c) := by
  fun_induction add c s with
  | case1 => rfl
  | case2 => rfl
  | case3 x rest _ ih => exact (ih.cons x).trans (.swap s x rest)

@[simp] theorem mem_add {c : Compound} {s x : Simple} : x ∈ c.add s ↔ x = s ∨ x ∈ c := by
  rw [(c.perm_add s).mem_iff, List.mem_cons]

variable {c c' : Compound} {l : List Simple} {s : Simple} {r : Nat}

/-- Whether smaller ranks stand first. -/
def Sorted (c : Compound) : Prop :=
  c.Pairwise fun a b => a.rank ≤ b.rank

@[grind =] theorem sorted_cons : Sorted (s :: c) ↔ (∀ x ∈ c, s.rank ≤ x.rank) ∧ c.Sorted :=
  List.pairwise_cons

/-- The simple selectors of one rank, in their order. -/
def ofRank (r : Nat) (l : List Simple) : List Simple :=
  l.filter (·.rank = r)

@[simp, grind =] theorem mem_ofRank : s ∈ ofRank r l ↔ s ∈ l ∧ s.rank = r := by
  simp [ofRank]

@[simp, grind =] theorem ofRank_nil : ofRank r [] = [] :=
  rfl

@[grind =] theorem ofRank_cons :
    ofRank r (s :: l) = if s.rank = r then s :: ofRank r l else ofRank r l := by
  simp [ofRank, List.filter_cons]

@[grind =] theorem ofRank_append (l l' : List Simple) :
    ofRank r (l ++ l') = ofRank r l ++ ofRank r l' :=
  List.filter_append l l'

/-- The compound `c` holds what `l` holds, smaller ranks first, and simple selectors of one rank in
the order of `l`. -/
structure SortedFrom (l : List Simple) (c : Compound) : Prop where
  perm : c.Perm l
  sorted : c.Sorted
  ofRank_eq : ∀ r, ofRank r c = ofRank r l

/-- A sorted compound is determined by what it holds of each rank. -/
theorem Sorted.eq_of_ofRank_eq (hc : c.Sorted) (hc' : c'.Sorted)
    (h : ∀ r, ofRank r c = ofRank r c') : c = c' := by
  have mem_iff {c c' : Compound} (h : ∀ r, ofRank r c = ofRank r c') (s : Simple) :
      s ∈ c ↔ s ∈ c' := by
    simpa using congrArg (s ∈ ·) (h s.rank)
  induction c generalizing c' with
  | nil => exact (List.eq_nil_iff_forall_not_mem.mpr fun s hs => nomatch (mem_iff h s).mpr hs).symm
  | cons a c ih =>
    cases c' with
    | nil => exact nomatch (mem_iff h a).mp List.mem_cons_self
    | cons b c' =>
      -- The two first ones are of the smallest rank, hence the first ones of that rank.
      have hrank : a.rank = b.rank := by
        have hab : b ∈ a :: c := (mem_iff h b).mpr List.mem_cons_self
        have hba : a ∈ b :: c' := (mem_iff h a).mp List.mem_cons_self
        grind
      have hfirst := h a.rank
      have hrest (r : Nat) : ofRank r c = ofRank r c' := by
        have := h r
        grind
      have hab : a = b := by grind
      rw [hab, ih (sorted_cons.mp hc).2 (sorted_cons.mp hc').2 hrest]

/-- There is one way to sort. -/
theorem SortedFrom.unique (h : SortedFrom l c) (h' : SortedFrom l c') : c = c' :=
  h.sorted.eq_of_ofRank_eq h'.sorted fun r => (h.ofRank_eq r).trans (h'.ofRank_eq r).symm

theorem Sorted.add (h : c.Sorted) (s : Simple) : (c.add s).Sorted := by
  fun_induction Compound.add c s with
  | case1 => simp [Sorted]
  | case2 => grind
  | case3 => grind [mem_add]

/-- What is added comes to stand behind all others of its rank. -/
theorem Sorted.ofRank_add (h : c.Sorted) (s : Simple) (r : Nat) :
    ofRank r (c.add s) = ofRank r (c ++ [s]) := by
  fun_induction Compound.add c s with
  | case1 => rfl
  | case2 t rest hlt =>
    have hnone : s.rank = r → ofRank r (t :: rest) = [] := by
      intro hr
      rw [List.eq_nil_iff_forall_not_mem]
      grind
    grind
  | case3 t rest hle ih => grind

/-- One more simple selector. -/
theorem SortedFrom.add (h : SortedFrom l c) (s : Simple) : SortedFrom (l ++ [s]) (c.add s) where
  perm := (c.perm_add s).trans ((h.perm.cons s).trans (List.perm_append_singleton s l).symm)
  sorted := h.sorted.add s
  ofRank_eq r := by rw [h.sorted.ofRank_add, ofRank_append, ofRank_append, h.ofRank_eq]

/-- Simple selectors added one after the other are sorted. -/
theorem SortedFrom.foldl_add (h : SortedFrom l c) (l' : List Simple) :
    SortedFrom (l ++ l') (l'.foldl Compound.add c) := by
  induction l' generalizing l c with
  | nil => simpa using h
  | cons s l' ih => simpa using ih (h.add s)

theorem sortedFrom_foldl_add (l : List Simple) : SortedFrom l (l.foldl Compound.add []) :=
  SortedFrom.foldl_add (l := []) ⟨.nil, .nil, fun _ => rfl⟩ l

/-- Simple selectors sorted all at once are sorted. -/
theorem sortedFrom_ofSimples (l : List Simple) : SortedFrom l (ofSimples l) := by
  have trans (a b d : Simple) (hab : decide (a.rank ≤ b.rank) = true)
      (hbd : decide (b.rank ≤ d.rank) = true) : decide (a.rank ≤ d.rank) = true := by
    grind
  have total (a b : Simple) : (decide (a.rank ≤ b.rank) || decide (b.rank ≤ a.rank)) = true := by
    grind
  have hperm : (ofSimples l).Perm l := List.mergeSort_perm l _
  refine ⟨hperm, (List.pairwise_mergeSort trans total l).imp (by simp), fun r => ?_⟩
  -- Those of one rank are sorted as they are, so they keep their order.
  have hranked : (ofRank r l).Pairwise fun a b => decide (a.rank ≤ b.rank) = true :=
    List.pairwise_of_forall_mem_list fun a ha b hb => by grind
  have hsub : (ofRank r l).Sublist (ofSimples l) :=
    List.sublist_mergeSort trans total hranked List.filter_sublist
  have hself : ofRank r (ofRank r l) = ofRank r l := by
    simp [ofRank]
  have hrank : (ofRank r l).Sublist (ofRank r (ofSimples l)) :=
    hself ▸ List.Sublist.filter _ hsub
  exact (hrank.eq_of_length (hperm.filter _).length_eq.symm).symm

/-- Both ways to build a compound come to the same. -/
theorem ofSimples_eq_foldl_add (l : List Simple) : ofSimples l = l.foldl Compound.add [] :=
  (sortedFrom_ofSimples l).unique (sortedFrom_foldl_add l)

/-! ## Changes inside negations -/

/-- From `c` to `c'` by steps of `R`, in the compound itself or inside a negation at any depth. -/
inductive Throughout (R : Compound → Compound → Prop) : Compound → Compound → Prop
  | here {c c' : Compound} (h : R c c') : Throughout R c c'
  | inside (before after : Compound) {inner inner' : Compound} (h : Throughout R inner inner') :
    Throughout R (before ++ .negation inner :: after) (before ++ .negation inner' :: after)
  | trans {c c' c'' : Compound} (h : Throughout R c c') (h' : Throughout R c' c'') :
    Throughout R c c''

/-- The same simple selectors, up to their order and to that inside negations. -/
abbrev Rearranged : Compound → Compound → Prop :=
  Throughout List.Perm

end Compound

/-- The same combinators, and compounds that are rearranged. -/
structure Complex.Rearranged (s s' : Complex) : Prop where
  subject : s.subject.Rearranged s'.subject
  left : List.Forall₂ (fun a b => a.1 = b.1 ∧ a.2.Rearranged b.2) s.left s'.left

end StyleEngine
