import StyleEngine.Proofs.Cascade.Collect

/-!
# What a lookup yields

A lookup yields ids in document order, and among them those of all selectors that match. The id of a
selector says where it stands: behind it are the rule and the selector at its place, but places are
counted modulo `2 ^ 16`. A selector further down in the list of its rule is thus lost: its id stands
for another one, and no id stands for it.

## Main statements

* `RuleIndex.lookup_build`: what the ids that a lookup yields stand for.
* `RuleIndex.lookup_build_loses`: a selector that matches and that no id stands for.
-/

namespace StyleEngine

theorem SelectorId.lt_iff {a b : SelectorId} : a < b ↔ a.weights < b.weights := by
  rw [← compare_eq_lt_iff, ← SelectorId.compare_eq_compare_weights]
  rfl

namespace RuleIndex

variable {ε : Type} {set : SheetSet} {m : Medium}

/-- The id of a selector stands for the one of the same rule at its place modulo `2 ^ 16`. -/
theorem selector?_build_id {a : ActiveSelector} (ha : a ∈ set.activeSelectors m)
    (hnumber : a.number < UInt32.size) :
    ∃ b ∈ set.activeSelectors m, b.rule = a.rule ∧ b.number = a.number ∧
      b.place = a.place % UInt16.size ∧ (build set m).selector? a.id = some b.kept := by
  obtain ⟨hrule, hselector⟩ := SheetSet.mem_activeSelectors_iff.mp ha
  have hlt : a.place % UInt16.size < a.rule.selectors.length :=
    Nat.lt_of_le_of_lt (Nat.mod_le _ _) (List.getElem?_eq_some_iff.mp hselector).1
  let b : ActiveSelector :=
    ⟨a.origin, a.rule, a.number, a.place % UInt16.size, a.rule.selectors[a.place % UInt16.size]⟩
  have hb : b ∈ set.activeSelectors m :=
    SheetSet.mem_activeSelectors_iff.mpr ⟨hrule, List.getElem?_eq_getElem hlt⟩
  have hid : a.number = a.id.rule.toNat := (UInt32.toNat_ofNat_of_lt hnumber).symm
  have hplace : a.place % UInt16.size = a.id.position.toNat := UInt16.toNat_ofNat.symm
  exact ⟨b, hb, rfl, rfl, rfl, selector?_build_eq_some_iff.mpr ⟨b, hb, hid, hplace, rfl⟩⟩

/-- If places are not counted over again, then it is the selector itself. -/
theorem selector?_build_id_of_lt {a : ActiveSelector} (ha : a ∈ set.activeSelectors m)
    (hnumber : a.number < UInt32.size) (hplace : a.place < UInt16.size) :
    (build set m).selector? a.id = some a.kept :=
  selector?_build_eq_some_iff.mpr ⟨a, ha, (UInt32.toNat_ofNat_of_lt hnumber).symm,
    (UInt16.toNat_ofNat_of_lt hplace).symm, rfl⟩

/-- A lookup yields ids in increasing order, without duplicates. As long as the rules can be
counted, each of them stands for an active selector. Whatever the mode, the ids of all selectors
that match are among them; each stands for a selector of the same rule, and if the place of the
selector is below `2 ^ 16`, for that very selector. -/
theorem lookup_build (set : SheetSet) (m : Medium) (t : ElementTree ε) (e : ε) :
    let index := build set m
    (index.lookup t e).Pairwise (· < ·) ∧ (index.lookup t e).Nodup ∧
      ((activeRules set m).length ≤ UInt32.size →
        ∀ id ∈ index.lookup t e, ∃ a ∈ set.activeSelectors m,
          index.selector? id = some a.kept) ∧
      ∀ mode, ∀ a ∈ set.activeSelectors m, a.number < UInt32.size → a.applies t mode e = true →
        a.id ∈ index.lookup t e ∧
          (∃ b ∈ set.activeSelectors m, b.rule = a.rule ∧ b.number = a.number ∧
            b.place = a.place % UInt16.size ∧ index.selector? a.id = some b.kept) ∧
          (a.place < UInt16.size → index.selector? a.id = some a.kept) := by
  intro index
  have hsorted : (index.lookup t e).Pairwise (· < ·) :=
    (pairwise_lookup index t e).imp SelectorId.lt_iff.mpr
  refine ⟨hsorted, hsorted.imp fun hlt heq => ?_, ?_, ?_⟩
  · subst heq
    exact List.lt_irrefl _ (SelectorId.lt_iff.mp hlt)
  · intro hlength id hid
    obtain ⟨a, ha, rfl⟩ := exists_of_mem_lookup_build hid
    have hnumber : a.number < (activeRules set m).length :=
      (List.getElem?_eq_some_iff.mp (SheetSet.mem_activeSelectors_iff.mp ha).1).1
    obtain ⟨b, hb, -, -, -, hid⟩ := selector?_build_id ha (Nat.lt_of_lt_of_le hnumber hlength)
    exact ⟨b, hb, hid⟩
  · intro mode a ha hnumber happlies
    exact ⟨id_mem_lookup_build ha (ActiveSelector.subject_holds_of_applies happlies),
      selector?_build_id ha hnumber, selector?_build_id_of_lt ha hnumber⟩

/-- Two rules about the children of a family. Of the second rule the second selector matches the
younger child. -/
theorem lookup_build_family :
    let list : Rule := ⟨[⟨[.tag "ul"], []⟩], []⟩
    let item : Rule := ⟨[⟨[.tag "ol"], []⟩, ⟨[.tag "li"], [(.adjacentSibling, [.tag "li"])]⟩], []⟩
    let set : SheetSet := ⟨.standards, [⟨.author, [list, item], none⟩]⟩
    let t := (Relative.tree fun _ => .none).toElementTree
    let a : ActiveSelector :=
      ⟨.author, item, 1, 1, ⟨[.tag "li"], [(.adjacentSibling, [.tag "li"])]⟩⟩
    let index := build set .screen
    (activeRules set .screen).length ≤ UInt32.size ∧ a ∈ set.activeSelectors .screen ∧
      a.applies t .standards Relative.younger = true ∧
      (index.lookup t Relative.younger).Pairwise (· < ·) ∧
      (∀ id ∈ index.lookup t Relative.younger, ∃ b ∈ set.activeSelectors .screen,
        index.selector? id = some b.kept) ∧
      a.id ∈ index.lookup t Relative.younger ∧ index.selector? a.id = some a.kept := by
  intro list item set t a index
  have hlength : (activeRules set .screen).length ≤ UInt32.size := by decide
  have ha : a ∈ set.activeSelectors .screen := SheetSet.mem_activeSelectors_iff.mpr ⟨rfl, rfl⟩
  have happlies : a.applies t .standards Relative.younger = true := by decide +kernel
  obtain ⟨hsorted, -, hresolved, hfound⟩ := lookup_build set .screen t Relative.younger
  obtain ⟨hmem, -, hid⟩ := hfound .standards a ha (by decide) happlies
  exact ⟨hlength, ha, happlies, hsorted, hresolved hlength, hmem, hid (by decide)⟩

/-- The last of `2 ^ 16 + 1` selectors of a rule matches the younger child, and no id stands for
it. -/
theorem lookup_build_loses :
    let rule : Rule := ⟨.replicate UInt16.size ⟨[.id "x"], []⟩ ++ [⟨[.tag "li"], []⟩], []⟩
    let set : SheetSet := ⟨.standards, [⟨.author, [rule], none⟩]⟩
    let t := (Relative.tree fun _ => .none).toElementTree
    ∃ a ∈ set.activeSelectors .screen, a.place = UInt16.size ∧
      a.applies t .standards Relative.younger = true ∧
      ∀ id rule specificity,
        (build set .screen).selector? id ≠ some (rule, a.selector, specificity) := by
  intro rule set t
  have hactive : activeRules set .screen = [(.author, rule)] := rfl
  refine ⟨⟨.author, rule, 0, UInt16.size, ⟨[.tag "li"], []⟩⟩,
    SheetSet.mem_activeSelectors_iff.mpr ⟨by rw [hactive]; rfl, ?_⟩, rfl, ?_, ?_⟩
  · simp [rule]
  · decide +kernel
  · intro id rule' specificity hid
    obtain ⟨b, hb, -, hplace, hkept⟩ := selector?_build_eq_some_iff.mp hid
    obtain ⟨hrule, hselector⟩ := SheetSet.mem_activeSelectors_iff.mp hb
    have hb : b.rule = rule := by
      have hmem := List.mem_of_getElem? hrule
      rw [hactive, List.mem_singleton] at hmem
      exact congrArg Prod.snd hmem
    have hlt : b.place < UInt16.size := hplace ▸ id.position.toNat_lt
    have hfirst : b.selector = ⟨[.id "x"], []⟩ := by
      rw [hb, List.getElem?_append_left (by simpa using hlt)] at hselector
      exact (List.mem_replicate.mp (List.mem_of_getElem? hselector)).2
    have hsame : b.selector = ⟨[.tag "li"], []⟩ := (congrArg (·.2.1) hkept).symm
    cases hfirst.symm.trans hsame

end RuleIndex

end StyleEngine
