import StyleEngine.Proofs.Matching.Balance
import StyleEngine.Proofs.Pass.Outcome
import StyleEngine.Proofs.Pass.Relink
import StyleEngine.Proofs.Pass.Stations

/-!
# The filter along a pass

A pass enters an element when it has a style, and leaves it after all that is below it. An element
that is cut off is not entered. At every station the filter therefore counts the features of the
ancestors of the element, and nothing else.

## Main statements

* `Styler.filtered_stations`: the filter at a station counts the ancestors of the element.
* `AncestorFilter.Positive.balanced`: leaving undoes entering, no zero is stored, and a pass
  collects with the filter that would be made for the element.
-/

namespace StyleEngine

variable {ε κ : Type}

/-- Whether the filter at a station counts the features of the ancestors of its element. -/
def Station.Filtered (t : StyledTree ε) (a : Station ε) : Prop :=
  a.state.styler.Filtered t a.element

/-- The filter goes up by an element when it is entered, and down again when it is left. -/
theorem StyledTree.Lawful.passRule_filter {t : StyledTree ε} (ht : t.Lawful)
    (stops : List (Station ε)) :
    PassRule t stops (·.Filtered t)
      (fun a _ _ _ p => p.styler.FilteredBelow t a.element)
      (fun a _ p => p.styler.Filtered t a.element) where
  cut _ hat hstyle := Styler.filtered_of_styleElement hat hstyle
  enter _ hat hstyle := (Styler.filtered_of_styleElement hat hstyle).push
  child {a _ _ c _ _ p} hchildren hamong := by
    have hc : c ∈ (t.branch a.element).children := by simp [hchildren]
    exact (Styler.filtered_child_iff ht hc).mpr hamong
  next {a _ _ c _ _ _ _ _} hchildren _ _ _ hafter := by
    have hc : c ∈ (t.branch a.element).children := by simp [hchildren]
    exact (Styler.filtered_child_iff ht hc).mp hafter
  leave _ _ _ _ hend := hend.pop

/-- The filter at a station of a pass counts the features of the ancestors of its element, whether
or not the pass comes to an end, and whatever elements have been styled or discarded before. -/
theorem Styler.filtered_stations {t : StyledTree ε} (ht : t.Lawful) (s : Styler)
    (parent : Option ComputedStyle) (e : ε) : ∀ a ∈ s.stations t parent e, a.Filtered t :=
  (ht.passRule_filter _).stations ht (s.filtered_beginPass t e)

/-- Leaving an element undoes entering it, for every filter without zeros, and also with counts that
stop at a greatest one which is not reached; and no calls store a zero. In every pass, the filter
with which the declarations for an element are collected counts exactly the features of its
ancestors, as one made for the element does, whatever the digests of the styler. -/
theorem AncestorFilter.Positive.balanced [BEq κ] [LawfulBEq κ] [Hashable κ] {f : AncestorFilter κ}
    (hf : f.Positive) (digest : Feature → κ) (t : ElementTree ε) :
    (∀ e, ((f.push digest t e).pop digest t e).counts.Equiv f.counts ∧
      ∀ cap, (∀ k, f.count k + (keys digest t e).count k ≤ cap) →
        f.pushUpTo cap digest t e = f.push digest t e) ∧
    (∀ calls : List (Call ε), (calls.foldl (run digest t) f).Positive) ∧
    ∀ d : StyledTree ε, d.Lawful → ∀ (s : Styler) (e : ε),
      (∀ parent, ∀ a ∈ s.stations d parent e, a.Filtered d ∧
        a.state.styler.filter.counts.Equiv
          (ofAncestors s.digest d.toElementTree a.element).counts) ∧
      ∀ s' r, s.restyle d e = .ok (s', r) → ∃ parent, s.parentStyle d e = .ok parent ∧
        (s.stations d parent e).map (·.element) = d.met (d.branch e) := by
  refine ⟨fun e => ⟨hf.equiv_pop_push digest t e, fun cap => pushUpTo_eq_push⟩,
    hf.foldl_run digest t,
    fun d hd s e => ⟨fun parent a ha => ?_, fun s' r => Styler.map_element_stations⟩⟩
  have hfiltered := Styler.filtered_stations hd s parent e a ha
  have hdigest : a.state.styler.digest = s.digest :=
    (Styler.enduring_digest s.digest).stations hd rfl parent a ha
  rw [← hdigest]
  exact ⟨hfiltered, hfiltered.equiv (counts_ofAncestors _ d.toElementTree a.element)⟩

/-- A family whose grandchild is cut off, and whose elements have a class three times in two
spellings. The younger child comes after the discarded grandchild. -/
theorem AncestorFilter.Positive.balanced_kin :
    let t := { Kin.tree true with
      classes := fun _ => ["Item", "item", "Item"]
      isConnected := fun e => e ≠ .grandchild }
    let s := Styler.create .default .approximate ⟨.standards, []⟩ .screen
    let f := ofAncestors id t.toElementTree .grandchild
    f.Positive ∧ ((f.push id t.toElementTree .younger).pop id t.toElementTree .younger).counts.Equiv
        f.counts ∧
      ∃ s' r, s.restyle t .parent = .ok (s', r) ∧ ∃ a ∈ s.stations t none .parent,
        a.element = .younger ∧ a.state.styler.filter.counts.Equiv
          (ofAncestors s.digest t.toElementTree .younger).counts := by
  intro t s f
  have ht : t.Lawful := { (Kin.rooted_tree true).lawful with }
  have hf : f.Positive := (counts_ofAncestors id t.toElementTree .grandchild).positive
  obtain ⟨hundone, -, hpass⟩ := Positive.balanced hf id t.toElementTree
  have hkeys : t.KeysDistinct := by
    intro a b h
    have hkey : Kin.key a = Kin.key b := h
    cases a <;> cases b <;> simp [Kin.key] at hkey ⊢
  have hindex : s.index.Fitting :=
    RuleIndex.fitting_build fun entry hentry => absurd hentry List.not_mem_nil
  have hfits : t.Fitting .parent := Kin.fitting_tree true
  obtain ⟨s', r, -, hrun, -, -⟩ := Styler.exists_restyle_walk ht hkeys hindex hfits rfl
    (rfl : s.parentStyle t .parent = .ok none)
  obtain ⟨hfilter, hmet⟩ := hpass t ht s .parent
  obtain ⟨parent, hparent, hstations⟩ := hmet s' r hrun
  obtain rfl : none = parent := Except.ok.inj hparent
  have hyounger : Kin.younger ∈ (s.stations t none .parent).map (·.element) := by
    rw [hstations]
    simp [t, Kin.tree, Kin.branch, Kin.elderBranch, StyledTree.met, StyledTree.metOfAll]
  obtain ⟨a, ha, helement⟩ := List.mem_map.mp hyounger
  exact ⟨hf, (hundone .younger).1, s', r, hrun, a, ha, helement,
    helement ▸ (hfilter none a ha).2⟩

end StyleEngine
