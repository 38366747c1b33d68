import StyleEngine.Proofs.Style.Handle

/-!
# What identities decide

Comparing styles looks at identities first, and at the contents of a group only where identities
differ. As long as styles are coherent, and no number in them is none, this is a shortcut and no
more: the class of a change hangs on the plain forms, and giving a style groups of its own changes
neither the class nor equality.

## Main definitions

* `ComputedStyle.restamp`: the style with groups of its own.

## Main statements

* `ComputedStyle.Numeric.difference_congr`: the class of a change hangs on the plain forms.
* `ComputedStyle.Numeric.difference_restamp`, `ComputedStyle.Numeric.beq_restamp`: identities do not
  show.
-/

namespace StyleEngine

namespace OwnStyle

variable {a b a' b' : OwnStyle}

/-! ## Fields -/

/-- Values of a field are equal if their plain forms are, unless the first is none. -/
theorem Numeric.get_beq_iff (ha : a.Numeric) (b : OwnStyle) (f : Field) :
    (a.get f == b.get f) = true ↔ a.plainForm.get f = b.plainForm.get f := by
  have hvalue {γ : Type} [BEq γ] [PlainGroup γ] {g : γ} (hself : (g == g) = true) (g' : γ)
      (f : PlainGroup.Field γ) : (PlainGroup.get g f == PlainGroup.get g' f) = true ↔
        plain (PlainGroup.get g f) = plain (PlainGroup.get g' f) :=
    ⟨Plain.plain_eq_of_beq, fun h => Plain.beq_of_plain_eq h (PlainGroup.beq_iff.mp hself f)⟩
  rw [get_plainForm, get_plainForm]
  cases f with
  | sizing f => exact hvalue ha.sizing b.sizing.value f
  | visual f => exact hvalue ha.visual b.visual.value f
  | background f => exact hvalue ha.background b.background.value f
  | frame f => exact hvalue ha.frame b.frame.value f
  | generated f => exact hvalue (beq_self_eq_true a.generated.value) b.generated.value f
  | effects f => exact hvalue ha.effects b.effects.value f
  | textEffects f => exact hvalue ha.textEffects b.textEffects.value f
  | typography f => exact hvalue ha.typography b.typography.value f
  | inherited f | box f => cases f <;> exact beq_iff_eq

section Congruence

variable (ha : a.Numeric) (h : a.plainForm = a'.plainForm) (h' : b.plainForm = b'.plainForm)

include ha h h'

theorem differ_congr (fs : List Field) : a.differ b fs = a'.differ b' fs := by
  have hfield (f : Field) : (a.get f != b.get f) = (a'.get f != b'.get f) := by
    have hbeq : (a.get f == b.get f) = (a'.get f == b'.get f) := by
      rw [Bool.eq_iff_iff, ha.get_beq_iff, (ha.of_plainForm_eq h).get_beq_iff, h, h']
    rw [bne, bne, hbeq]
  simp only [differ, hfield]

theorem moves_congr : a.Moves b ↔ a'.Moves b' := by
  have hsurroundings := differ_congr ha h h' Field.ofSurroundings
  have hbox := box_eq_of_plainForm h'
  have hauto (side : Side) : b.get (.frame (.offset side)) = .auto ↔
      b'.get (.frame (.offset side)) = .auto := by
    have hplain (l : Length) : plain l = .auto ↔ l = .auto := by
      cases l <;> simp [plain]
    have hoffset : plain (α := Length) (b.get (.frame (.offset side))) =
        plain (α := Length) (b'.get (.frame (.offset side))) := by
      have hget := congrArg (OwnStyle.get · (.frame (.offset side))) h'
      rwa [get_plainForm, get_plainForm] at hget
    exact (hplain _).symm.trans ((iff_of_eq (congrArg (· = Length.auto) hoffset)).trans (hplain _))
  constructor
  · rintro ⟨hdiffer, hpositioned, hplaced⟩
    refine ⟨hsurroundings ▸ hdiffer, hbox ▸ hpositioned, ?_⟩
    simpa only [← hbox, ne_eq, ← hauto] using hplaced
  · rintro ⟨hdiffer, hpositioned, hplaced⟩
    refine ⟨hsurroundings ▸ hdiffer, hbox ▸ hpositioned, ?_⟩
    simpa only [hbox, ne_eq, hauto] using hplaced

/-- The class of a change hangs on the plain forms, if groups that are left alone are equal. -/
theorem difference_congr (hshared : a.SharesAlike b) (hshared' : a'.SharesAlike b') :
    a.difference b = a'.difference b' := by
  have hdiffer := differ_congr ha h h'
  have hmoves : a.movesOnly b = a'.movesOnly b' := by
    rw [Bool.eq_iff_iff, movesOnly_iff, movesOnly_iff, moves_congr ha h h']
  rw [difference, difference, hmoves, needsContainingBlockLayout_eq hshared,
    needsContainingBlockLayout_eq hshared', needsLayout_eq hshared, needsLayout_eq hshared',
    geometryChanged_eq hshared, geometryChanged_eq hshared', needsRepaint_eq hshared,
    needsRepaint_eq hshared', box_eq_of_plainForm h']
  simp only [hdiffer]

end Congruence

/-! ## Groups of their own -/

/-- The style with the same contents in groups that were made under a stamp. -/
def restamp (stamp : Stamp) (s : OwnStyle) : OwnStyle where
  sizing := .write stamp s.sizing.value
  visual := .write stamp s.visual.value
  background := .write stamp s.background.value
  frame := .write stamp s.frame.value
  generated := .write stamp s.generated.value
  effects := .write stamp s.effects.value
  textEffects := .write stamp s.textEffects.value
  typography := .write stamp s.typography.value
  inherited := s.inherited
  box := s.box

@[simp] theorem plainForm_restamp (stamp : Stamp) (s : OwnStyle) :
    (s.restamp stamp).plainForm = s.plainForm :=
  rfl

theorem handle_restamp (stamp : Stamp) (s : OwnStyle) (g : Group) :
    (s.restamp stamp).handle g = .write stamp (s.handle g).value := by
  cases g <;> rfl

/-- A style shares no group with one whose groups were made later. -/
theorem sharesEqual_restamp {stamp : Stamp} (ha : ∀ g, (a.handle g).identity < stamp)
    (b : OwnStyle) : a.SharesEqual (b.restamp stamp) := by
  refine sharesEqual_iff.mpr fun g hsame => ?_
  rw [handle_restamp] at hsame
  exact absurd (beq_iff_eq.mp hsame) (Nat.ne_of_lt (ha g))

/-- Equality of groups that share contents only is that of the contents. -/
theorem SharesEqual.handle_beq (h : a.SharesEqual b) {g : Group}
    (hself : ((a.handle g).value == (a.handle g).value) = true) :
    (a.handle g == b.handle g) = ((a.handle g).value == (b.handle g).value) := by
  change ((a.handle g).same (b.handle g) || (a.handle g).value == (b.handle g).value) = _
  cases hsame : (a.handle g).same (b.handle g) with
  | false => rw [Bool.false_or]
  | true => rw [← sharesEqual_iff.mp h g hsame, hself, Bool.true_or]

/-- Equal styles are those of one plain form. -/
theorem Numeric.beq_iff (ha : a.Numeric) (h : a.SharesEqual b) :
    (a == b) = true ↔ a.plainForm = b.plainForm := by
  refine ⟨fun hbeq => ?_, ha.beq_of_plainForm_eq⟩
  have hgroup {γ : Type} [BEq γ] [PlainGroup γ] {g g' : Shared γ} (hbeq : (g == g') = true)
      (hshared : g.same g' = true → g.value = g'.value) : g.plainForm = g'.plainForm := by
    rcases Bool.or_eq_true_iff.mp hbeq with hsame | hvalue
    · rw [Shared.plainForm, Shared.plainForm, hshared hsame]
    · rw [Shared.plainForm, Shared.plainForm, PlainGroup.plainForm_eq_of_beq hvalue]
  simp only [beq_eq, Bool.and_eq_true] at hbeq
  obtain ⟨h₁, h₂, h₃, h₄, h₅, h₆, h₇, h₈, h₉, h₁₀⟩ := hbeq
  simp only [plainForm, hgroup h₁ h.sizing, hgroup h₂ h.visual, hgroup h₃ h.background,
    hgroup h₄ h.frame, hgroup h₅ h.generated, hgroup h₆ h.effects, hgroup h₇ h.textEffects,
    hgroup h₈ h.typography, eq_of_beq h₉, eq_of_beq h₁₀]

end OwnStyle

namespace ComputedStyle

variable {old new old' new' : ComputedStyle}

/-- The class of a change hangs on the plain forms of the two styles, if no number in them is none
and groups that they share hold equal contents. -/
theorem Numeric.difference_congr (hold : old.Numeric) (hnew : new.Numeric)
    (h : old.plainForm = old'.plainForm) (h' : new.plainForm = new'.plainForm)
    (hshared : ∀ a b, old.Part a → new.Part b → a.SharesEqual b)
    (hshared' : ∀ a b, old'.Part a → new'.Part b → a.SharesEqual b) :
    old.difference new = old'.difference new' := by
  induction hold generalizing new old' new' with
  | @node own pseudos hown hpseudos ih =>
    obtain ⟨own', pseudos'⟩ := old'
    have hnew' := hnew.of_plainForm_eq h'
    have hbase : own.difference new.own = own'.difference new'.own := by
      have hnewOwn : new.own.Numeric := by cases hnew; assumption
      have hnewOwn' : new'.own.Numeric := by cases hnew'; assumption
      exact OwnStyle.difference_congr hown (own_eq_of_plainForm h) (own_eq_of_plainForm h')
        ((hshared _ _ (.own _) (.own _)).alike hnewOwn)
        ((hshared' _ _ (.own _) (.own _)).alike hnewOwn')
    have hpseudo (p : PseudoElement) :
        pseudoDifference new p pseudos = pseudoDifference new' p pseudos' := by
      have hsame := pseudo?_eq_of_plainForm h p
      have hsame' := pseudo?_eq_of_plainForm h' p
      have heq := pseudoDifference_eq ⟨own, pseudos⟩ new p
      have heq' := pseudoDifference_eq ⟨own', pseudos'⟩ new' p
      dsimp only at heq heq'
      rw [heq, heq']
      rcases eq_none_or_of_map_eq hsame with ⟨hp, hp'⟩ | ⟨style, style', hp, hp', hstyle⟩ <;>
        rcases eq_none_or_of_map_eq hsame' with ⟨hq, hq'⟩ | ⟨other, other', hq, hq', hother⟩ <;>
        rw [hp, hp', hq, hq']
      obtain ⟨entry, hentry, rfl⟩ := mem_of_pseudo? hp
      obtain ⟨entry', hentry', rfl⟩ := mem_of_pseudo? hp'
      obtain ⟨entryNew, hentryNew, rfl⟩ := mem_of_pseudo? hq
      obtain ⟨entryNew', hentryNew', rfl⟩ := mem_of_pseudo? hq'
      have hnumeric : entryNew.2.Numeric := by
        cases hnew with | node _ hall => exact hall _ hentryNew
      exact ih entry hentry hnumeric hstyle hother
        (fun a b ha hb => hshared a b (.pseudo hentry ha) (.pseudo hentryNew hb))
        fun a b ha hb => hshared' a b (.pseudo hentry' ha) (.pseudo hentryNew' hb)
    rw [difference, difference, hbase]
    simp only [hpseudo]

/-- Equal styles are those of one plain form, if no number in the first is none and groups that they
share hold equal contents. -/
theorem Numeric.beq_iff {s s' : ComputedStyle} (hs : s.Numeric)
    (hshared : ∀ a b, s.Part a → s'.Part b → a.SharesEqual b) :
    (s == s') = true ↔ s.plainForm = s'.plainForm := by
  refine ⟨fun hbeq => ?_, hs.beq_of_plainForm_eq⟩
  induction hs generalizing s' with
  | @node own pseudos hown _ ih =>
    obtain ⟨own', pseudos'⟩ := s'
    change beq _ _ = true at hbeq
    rw [beq, Bool.and_eq_true] at hbeq
    refine plainForm_congr ((hown.beq_iff (hshared _ _ (.own _) (.own _))).mp hbeq.1) ?_
    have hrest (l l' : List (PseudoElement × ComputedStyle)) (hl : l ⊆ pseudos)
        (hl' : l' ⊆ pseudos') (h : beqPseudos l l' = true) :
        (l.map fun entry => (entry.1, entry.2.plainForm)) =
          l'.map fun entry => (entry.1, entry.2.plainForm) := by
      induction l generalizing l' with
      | nil =>
        cases l' with
        | nil => rfl
        | cons entry' l' => cases h
      | cons entry l ihl =>
        cases l' with
        | nil => cases h
        | cons entry' l' =>
          obtain ⟨hentry, hl⟩ := List.cons_subset.mp hl
          obtain ⟨hentry', hl'⟩ := List.cons_subset.mp hl'
          rw [beqPseudos, Bool.and_eq_true, Bool.and_eq_true] at h
          have hstyle : entry.2.plainForm = entry'.2.plainForm :=
            ih entry hentry (fun a b ha hb => hshared a b (.pseudo hentry ha) (.pseudo hentry' hb))
              h.1.2
          rw [List.map_cons, List.map_cons, eq_of_beq h.1.1, hstyle, ihl l' hl hl' h.2]
    exact hrest pseudos pseudos' (List.Subset.refl _) (List.Subset.refl _) hbeq.2

/-! ## Groups of their own -/

/-- The style with the same contents in groups that were made under a stamp. -/
def restamp (stamp : Stamp) (s : ComputedStyle) : ComputedStyle :=
  s.mapParts (OwnStyle.restamp stamp)

mutual
theorem plainForm_restamp (stamp : Stamp) (s : ComputedStyle) :
    (s.restamp stamp).plainForm = s.plainForm := by
  match s with
  | ⟨own, pseudos⟩ =>
    rw [restamp, mapParts, plainForm, plainForm, OwnStyle.plainForm_restamp,
      plainPseudos_restamp stamp pseudos]
theorem plainPseudos_restamp (stamp : Stamp) (l : List (PseudoElement × ComputedStyle)) :
    plainPseudos (mapPartsOfAll (OwnStyle.restamp stamp) l) = plainPseudos l := by
  match l with
  | [] => rfl
  | (p, s) :: l =>
    have hstyle := plainForm_restamp stamp s
    rw [restamp] at hstyle
    rw [mapPartsOfAll, plainPseudos, plainPseudos, hstyle, plainPseudos_restamp stamp l]
end

section Restamp

variable {stamp : Stamp} (hold : old.Numeric) (hnew : new.Numeric)
  (hshared : ∀ a b, old.Part a → new.Part b → a.SharesEqual b)
  (hlt : ∀ a, old.Part a → ∀ g, (a.handle g).identity < stamp)

omit hold hnew hshared in
include hlt in
theorem sharesEqual_restamp (a b : OwnStyle) (ha : old.Part a) (hb : (new.restamp stamp).Part b) :
    a.SharesEqual b := by
  rw [← mem_parts, restamp, parts_mapParts] at hb
  obtain ⟨b, -, rfl⟩ := List.mem_map.mp hb
  exact OwnStyle.sharesEqual_restamp (hlt a ha) b

include hold hshared hlt

/-- Looking at identities first finds the class that looking at the contents finds. -/
theorem Numeric.difference_restamp (hnew : new.Numeric) :
    old.difference new = old.difference (new.restamp stamp) :=
  hold.difference_congr hnew rfl (plainForm_restamp stamp new).symm hshared
    (sharesEqual_restamp hlt)

/-- Looking at identities first finds equal what looking at the contents does. -/
theorem Numeric.beq_restamp : (old == new) = (old == new.restamp stamp) := by
  rw [Bool.eq_iff_iff, hold.beq_iff hshared, hold.beq_iff (sharesEqual_restamp hlt),
    plainForm_restamp]

end Restamp

end ComputedStyle

end StyleEngine
