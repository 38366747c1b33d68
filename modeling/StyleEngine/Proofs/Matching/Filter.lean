import Mathlib.Data.List.Perm.Basic
import StyleEngine.Proofs.Matching.Meaning

/-!
# The filter tells the truth

A compound can only hold at an element that has the features it asks for. A filter that counts the
features of all ancestors of an element therefore refuses no selector that matches the element, or
an ancestor of it.

## Main definitions

* `AncestorFilter.Counts`: a filter counts each digest as often as a list holds it.

## Main statements

* `AncestorFilter.counts_ofAncestors`: what the filter of an element counts.
* `AncestorFilter.mayMatch_of_matches`: what the filter refuses does not match.
-/

namespace StyleEngine

variable {ε : Type} {t : ElementTree ε} {mode : DocumentMode}

/-! ## Features -/

theorem Compound.holdsAll_iff {isSubject : Bool} {whole : Compound} {e : ε} {rest : List Simple} :
    holdsAll t mode isSubject whole e rest = true ↔
      ∀ s ∈ rest, s.holds t mode isSubject whole e = true := by
  induction rest with
  | nil => simp [holdsAll]
  | cons s rest ih => simp [holdsAll, ih]

theorem Compound.simple_holds {isSubject : Bool} {c : Compound} {e : ε}
    (h : c.holds t mode isSubject e = true) {s : Simple} (hs : s ∈ c) :
    s.holds t mode isSubject c e = true :=
  holdsAll_iff.mp h s hs

/-- Names that are one in some mode have one folded form. -/
theorem DocumentMode.foldCase_eq_of_sameName {a b : String} (h : mode.sameName a b = true) :
    Text.foldCase a = Text.foldCase b := by
  cases mode with
  | standards => rw [show a = b by simpa [sameName] using h]
  | quirks => exact Text.sameFolded_iff.mp h

/-- An element at which a compound holds has every feature that the compound asks for. -/
theorem Feature.folded_mem_of_holds {isSubject : Bool} {c : Compound} {e : ε}
    (h : c.holds t mode isSubject e = true) {x : Feature} (hx : x ∈ ofCompound c) :
    x.folded ∈ (ofElement t e).map folded := by
  simp only [ofCompound, List.mem_append, List.mem_map, Option.mem_toList] at hx
  rcases hx with (⟨name, hname, rfl⟩ | ⟨value, hvalue, rfl⟩) | ⟨name, hname, rfl⟩
  · obtain ⟨s, hs, hsome⟩ := List.exists_of_findSome?_eq_some hname
    have hholds := Compound.simple_holds h hs
    cases s <;> cases hsome
    rw [Simple.holds, Text.sameFolded_iff] at hholds
    simp [ofElement, folded, hholds]
  · obtain ⟨s, hs, hsome⟩ := List.exists_of_findSome?_eq_some hvalue
    have hholds := Compound.simple_holds h hs
    cases s <;> cases hsome
    rw [Simple.holds, Option.any_eq_true] at hholds
    obtain ⟨w, hw, hsame⟩ := hholds
    have := mode.foldCase_eq_of_sameName hsame
    simp [ofElement, folded, hw, this]
  · obtain ⟨s, hs, hsome⟩ := List.mem_filterMap.mp hname
    have hholds := Compound.simple_holds h hs
    cases s <;> cases hsome
    rw [Simple.holds, List.any_eq_true] at hholds
    obtain ⟨w, hw, hsame⟩ := hholds
    have := mode.foldCase_eq_of_sameName hsame
    refine List.mem_map.mpr ⟨className w, ?_, by simp [folded, this]⟩
    simp [ofElement, hw]

/-! ## Counts -/

namespace AncestorFilter

variable {κ : Type} [BEq κ] [LawfulBEq κ] [Hashable κ]

/-- Whether the filter counts each digest as often as `l` holds it, and keeps no count of zero. -/
def Counts (f : AncestorFilter κ) (l : List κ) : Prop :=
  ∀ k, f.counts[k]? = if k ∈ l then some (l.count k) else none

variable {f : AncestorFilter κ} {l l' : List κ}

theorem Counts.perm (h : f.Counts l) (hl : l.Perm l') : f.Counts l' := by
  intro k
  rw [h k, hl.count_eq]
  simp only [hl.mem_iff]

theorem counts_empty : (empty : AncestorFilter κ).Counts [] := by
  intro k
  simp [empty]

theorem Counts.contains_iff (h : f.Counts l) {k : κ} : f.counts.contains k = true ↔ k ∈ l := by
  rw [Std.HashMap.contains_eq_isSome_getElem?, h k]
  split <;> simp_all

theorem Counts.getD_eq (h : f.Counts l) (k : κ) : f.counts.getD k 0 = l.count k := by
  rw [Std.HashMap.getD_eq_getD_getElem?, h k]
  split
  · rfl
  · next hk => exact (List.count_eq_zero.mpr hk).symm

theorem Counts.insertKey (h : f.Counts l) (k : κ) : (f.insertKey k).Counts (k :: l) := by
  intro k'
  rw [AncestorFilter.insertKey, Std.HashMap.getElem?_insert, h.getD_eq]
  by_cases hk : k = k'
  · subst hk
    simp
  · simp [h k', hk, Ne.symm hk]

theorem Counts.eraseKey {k : κ} (h : f.Counts (k :: l)) : (f.eraseKey k).Counts l := by
  have hget : f.counts[k]? = some (l.count k + 1) := by simp [h k]
  have other {k' : κ} (hk : k ≠ k') :
      f.counts[k']? = if k' ∈ l then some (l.count k') else none := by
    simp [h k', hk, Ne.symm hk]
  intro k'
  rw [AncestorFilter.eraseKey, hget]
  simp only
  split
  · next hone =>
    have hmem : k ∉ l := List.count_eq_zero.mp (by omega)
    rw [Std.HashMap.getElem?_erase]
    by_cases hk : k = k'
    · subst hk
      simp [hmem]
    · simp [hk, other hk]
  · next hmany =>
    have hmem : k ∈ l := List.count_pos_iff.mp (by omega)
    rw [Std.HashMap.getElem?_insert]
    by_cases hk : k = k'
    · subst hk
      simp [hmem]
    · simp [hk, other hk]

/-- Entering an element counts its digests on top of what was counted. -/
theorem Counts.push (h : f.Counts l) (digest : Feature → κ) (e : ε) :
    (f.push digest t e).Counts (keys digest t e ++ l) := by
  unfold AncestorFilter.push
  generalize keys digest t e = ks
  induction ks generalizing f l with
  | nil => exact h
  | cons k ks ih => exact (ih (h.insertKey k)).perm List.perm_middle

/-- Leaving an element undoes entering it. -/
theorem Counts.pop {digest : Feature → κ} {e : ε} (h : f.Counts (keys digest t e ++ l)) :
    (f.pop digest t e).Counts l := by
  unfold AncestorFilter.pop
  generalize keys digest t e = ks at h
  induction ks generalizing f with
  | nil => exact h
  | cons k ks ih => exact ih h.eraseKey

/-- The digests of the features of all ancestors of `e`, as often as they occur. -/
def ancestorKeys (digest : Feature → κ) (t : ElementTree ε) (e : ε) : List κ :=
  (t.ancestors e).flatMap (keys digest t)

/-- The filter of an element counts the features of its ancestors. -/
theorem counts_ofAncestors (digest : Feature → κ) (t : ElementTree ε) (e : ε) :
    (ofAncestors digest t e).Counts (ancestorKeys digest t e) := by
  unfold ofAncestors ancestorKeys
  induction t.ancestors e with
  | nil => exact counts_empty
  | cons a l ih => exact ih.push digest a

/-- Filters that count the same refuse the same. -/
theorem Counts.mayMatch_congr {f' : AncestorFilter κ} (h : f.Counts l) (h' : f'.Counts l)
    (digest : Feature → κ) (s : Complex) : f.mayMatch digest s = f'.mayMatch digest s := by
  have hcontains (k : κ) : f.counts.contains k = f'.counts.contains k :=
    Bool.eq_iff_iff.mpr (h.contains_iff.trans h'.contains_iff.symm)
  simp only [AncestorFilter.mayMatch, AncestorFilter.mightHave, hcontains]

/-- A compound that holds at an element whose features are counted might be had. -/
theorem Counts.mightHave {digest : Feature → κ} (h : f.Counts l) {isSubject : Bool} {c : Compound}
    {a : ε} (hc : c.holds t mode isSubject a = true) (ha : keys digest t a ⊆ l) :
    f.mightHave digest c = true := by
  refine List.all_eq_true.mpr fun x hx => h.contains_iff.mpr (ha ?_)
  obtain ⟨y, hy, hfolded⟩ := List.mem_map.mp (Feature.folded_mem_of_holds hc hx)
  exact List.mem_map.mpr ⟨y, hy, by rw [hfolded]⟩

theorem Counts.mayMatch_left (ht : t.Lawful) {digest : Feature → κ} (h : f.Counts l)
    {left : List (Combinator × Compound)} {e : ε}
    (hl : ∀ a ∈ t.ancestors e, keys digest t a ⊆ l) (hleft : Complex.MatchesLeft t mode left e) :
    (left.all fun (combinator, c) =>
      match combinator with
      | .descendant | .child => f.mightHave digest c
      | .adjacentSibling | .generalSibling => true) = true := by
  induction left generalizing e with
  | nil => rfl
  | cons head left ih =>
    obtain ⟨combinator, c⟩ := head
    obtain ⟨a, hrel, hc, hleft⟩ := hleft
    -- Siblings have the ancestors of `e`; an ancestor of `e` is counted, and has fewer of them.
    have beside (hs : a ∈ t.preceding e) : ∀ b ∈ t.ancestors a, keys digest t b ⊆ l :=
      ht.ancestors_of_mem_preceding hs ▸ hl
    have above (ha : a ∈ t.ancestors e) :
        f.mightHave digest c = true ∧ ∀ b ∈ t.ancestors a, keys digest t b ⊆ l :=
      ⟨h.mightHave hc (hl a ha), fun b hb => hl b ((ht.ancestors_suffix ha).subset hb)⟩
    rw [List.all_cons, Bool.and_eq_true]
    cases combinator with
    | descendant =>
      obtain ⟨hhave, hup⟩ := above (ht.relates_descendant.mp hrel)
      exact ⟨hhave, ih hup hleft⟩
    | child =>
      obtain ⟨hhave, hup⟩ := above (List.mem_of_head? hrel)
      exact ⟨hhave, ih hup hleft⟩
    | adjacentSibling => exact ⟨rfl, ih (beside (List.mem_of_head? hrel)) hleft⟩
    | generalSibling => exact ⟨rfl, ih (beside (ht.relates_generalSibling.mp hrel)) hleft⟩

/-- A filter that counts the features of all ancestors of `e` lets every selector pass that matches
`e`. -/
theorem Counts.mayMatch_of_matches (ht : t.Lawful) {digest : Feature → κ} {e : ε}
    (h : f.Counts (ancestorKeys digest t e)) {s : Complex} (hs : s.Matches t mode e) :
    f.mayMatch digest s = true :=
  have hl : ∀ a ∈ t.ancestors e, keys digest t a ⊆ ancestorKeys digest t e :=
    fun a ha _ hk => List.mem_flatMap.mpr ⟨a, ha, hk⟩
  h.mayMatch_left ht hl (Complex.matches_iff.mp hs).2

end AncestorFilter

end StyleEngine
