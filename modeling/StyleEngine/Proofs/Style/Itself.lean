import StyleEngine.Proofs.Computation.Apply
import StyleEngine.Proofs.Style.Difference

/-!
# A style compared with itself

What is not a number equals nothing, itself included. Groups are not looked into where both styles
share them, and so a style does not differ from itself in them. But the clip rectangle, the vertical
alignment and the text shadows are compared whether or not their groups are shared. So a style differs
from itself if what should be a number in one of these is none.

## Main definitions

* `OwnStyle.exposed`: the numbers that are compared in any case.
* `ComputedStyle.Within`: the styles in a style, as they are found by name.

## Main statements

* `ComputedStyle.difference_self_iff`: when a style does not differ from itself.
-/

namespace StyleEngine

/-! ## Numbers in values -/

/-- The numbers in a length. -/
def Length.numbers : Length → List Float32
  | auto | none => []
  | fixed x | percent x => [x]

/-- The numbers in a clip rectangle. -/
def Edges.numbers (e : Edges Length) : List Float32 :=
  Side.all.flatMap fun side => (e.get side).numbers

/-- The numbers in a vertical alignment. -/
def VerticalAlign.numbers : VerticalAlign → List Float32
  | keyword _ => []
  | length l => l.numbers

/-- The numbers in a shadow. -/
def Shadow.numbers (s : Shadow) : List Float32 :=
  [s.x, s.y, s.blur]

theorem Length.beq_self_iff (l : Length) : (l == l) = true ↔ ∀ x ∈ l.numbers, x ≠ .nan := by
  cases l with
  | auto | none => exact ⟨nofun, fun _ => rfl⟩
  | fixed x | percent x =>
    simp only [numbers, List.forall_mem_singleton]
    exact Float32.beq_self_iff

theorem Edges.beq_self_iff (e : Edges Length) : (e == e) = true ↔ ∀ x ∈ e.numbers, x ≠ .nan := by
  simp only [Edges.beq_iff, Length.beq_self_iff, numbers, List.mem_flatMap, forall_exists_index,
    and_imp]
  have hall (side : Side) : side ∈ Side.all := by cases side <;> decide
  exact ⟨fun h x side _ => h side x, fun h side x => h x side (hall side)⟩

theorem VerticalAlign.beq_self_iff (v : VerticalAlign) :
    (v == v) = true ↔ ∀ x ∈ v.numbers, x ≠ .nan := by
  cases v with
  | keyword align => exact ⟨nofun, fun _ => beq_self_eq_true align⟩
  | length l => exact l.beq_self_iff

theorem Shadow.beq_self_iff (s : Shadow) : (s == s) = true ↔ ∀ x ∈ s.numbers, x ≠ .nan := by
  simp [Shadow.beq_iff, numbers, Float32.beq_self_iff]

theorem beq_self_iff_clip (clip : Option (Edges Length)) :
    (clip == clip) = true ↔ ∀ x ∈ clip.toList.flatMap Edges.numbers, x ≠ .nan := by
  cases clip with
  | none => simp
  | some e => simpa using e.beq_self_iff

theorem beq_self_iff_shadows (l : List Shadow) :
    (l == l) = true ↔ ∀ x ∈ l.flatMap Shadow.numbers, x ≠ .nan := by
  induction l with
  | nil => simp
  | cons s l ih =>
    rw [List.cons_beq_cons, Bool.and_eq_true, s.beq_self_iff, ih, List.flatMap_cons,
      List.forall_mem_append]

/-- A handle is to the same group as itself. -/
theorem Shared.beq_self {α : Type} [BEq α] (g : Shared α) : (g == g) = true := by
  change (g.same g || g.value == g.value) = true
  rw [same_self, Bool.true_or]

namespace OwnStyle

/-- The numbers that are compared even where all groups are shared. -/
def exposed (s : OwnStyle) : List Float32 :=
  s.visual.value.clip.toList.flatMap Edges.numbers ++ s.sizing.value.verticalAlign.numbers ++
    s.textEffects.value.textShadow.flatMap Shadow.numbers

/-- Of a style and itself, three values are compared that may differ. -/
theorem difference_self (s : OwnStyle) :
    s.difference s =
      if s.visual.value.clip != s.visual.value.clip then .containingBlockLayout
      else if s.sizing.value.verticalAlign != s.sizing.value.verticalAlign then .layout
      else if s.textEffects.value.textShadow != s.textEffects.value.textShadow then .visible
      else .equal := by
  have hgenerated : (s.generated == s.generated) = true := Shared.beq_self _
  have hbackground : (s.background == s.background) = true := Shared.beq_self _
  have heffects : (s.effects == s.effects) = true := Shared.beq_self _
  have hcolors : (s.frame.value.border.colors == s.frame.value.border.colors) = true :=
    Edges.beq_iff.mpr fun _ => beq_self_eq_true _
  simp only [difference, needsContainingBlockLayout, needsLayout, geometryChanged, needsRepaint,
    bne, Shared.same_self, beq_self_eq_true, hgenerated, hbackground, heffects, hcolors,
    Bool.not_true, Bool.false_and, Bool.and_false, Bool.or_false, Bool.false_or,
    Bool.false_eq_true, if_false]

theorem difference_self_eq_equal_iff (s : OwnStyle) :
    s.difference s = .equal ↔ ∀ x ∈ s.exposed, x ≠ .nan := by
  simp only [exposed, List.forall_mem_append, ← beq_self_iff_clip, ← VerticalAlign.beq_self_iff,
    ← beq_self_iff_shadows, difference_self, bne]
  grind

end OwnStyle

/-! ## Pseudo-element styles -/

namespace Difference

theorem max_eq_equal_iff {a b : Difference} : max a b = equal ↔ a = equal ∧ b = equal := by
  cases a <;> cases b <;> decide

theorem foldl_max_eq_equal_iff {base : Difference} {l : List Difference} :
    l.foldl max base = equal ↔ base = equal ∧ ∀ d ∈ l, d = equal := by
  induction l generalizing base with
  | nil => simp
  | cons d l ih => rw [List.foldl_cons, ih, max_eq_equal_iff, List.forall_mem_cons, and_assoc]

@[simp] theorem cappedFor_eq_equal_iff {d : Difference} {p : PseudoElement} :
    d.cappedFor p = equal ↔ d = equal := by
  cases d <;> cases p <;> decide

end Difference

namespace ComputedStyle

/-- Styles do not differ if their own parts do not, and no style of a pseudo-element does. -/
theorem difference_eq_equal_iff {old new : ComputedStyle} :
    old.difference new = .equal ↔ old.own.difference new.own = .equal ∧
      ∀ p, pseudoDifference new p old.pseudos = .equal := by
  obtain ⟨own, pseudos⟩ := old
  rw [difference]
  split_ifs with hblock
  · simp [hblock]
  · simp [Difference.foldl_max_eq_equal_iff, PseudoElement.mem_all]

mutual
/-- What holds of a style if it holds of the styles attached to it, holds of all styles. -/
@[elab_as_elim]
theorem induction_pseudos {motive : ComputedStyle → Prop}
    (step : ∀ s, (∀ entry ∈ s.pseudos, motive entry.2) → motive s) (s : ComputedStyle) :
    motive s := by
  match s with
  | ⟨own, pseudos⟩ => exact step _ (forall_of_pseudos step pseudos)
theorem forall_of_pseudos {motive : ComputedStyle → Prop}
    (step : ∀ s, (∀ entry ∈ s.pseudos, motive entry.2) → motive s)
    (l : List (PseudoElement × ComputedStyle)) : ∀ entry ∈ l, motive entry.2 := by
  match l with
  | [] => nofun
  | (p, s) :: l => exact List.forall_mem_cons.mpr ⟨induction_pseudos step s, forall_of_pseudos step l⟩
end

/-- A style in a style, as it is found by the names of pseudo-elements. -/
inductive Within : ComputedStyle → ComputedStyle → Prop
  | self (s : ComputedStyle) : Within s s
  | pseudo {s style s' : ComputedStyle} {p : PseudoElement} (h : s.pseudo? p = some style)
    (h' : Within style s') : Within s s'

theorem forall_within_iff {s : ComputedStyle} {P : ComputedStyle → Prop} :
    (∀ s', s.Within s' → P s') ↔
      P s ∧ ∀ p style, s.pseudo? p = some style → ∀ s', style.Within s' → P s' := by
  constructor
  · exact fun h => ⟨h s (.self s), fun p style hp s' hs' => h s' (.pseudo hp hs')⟩
  · rintro ⟨hself, hpseudo⟩ s' (_ | ⟨hp, hs'⟩)
    · exact hself
    · exact hpseudo _ _ hp s' hs'

theorem pseudoDifference_self_iff {s : ComputedStyle} {p : PseudoElement} :
    pseudoDifference s p s.pseudos = .equal ↔
      ∀ style, s.pseudo? p = some style → style.difference style = .equal := by
  rw [pseudoDifference_eq]
  cases s.pseudo? p <;> simp

/-- A style does not differ from itself if and only if all that should be numbers in the clip
rectangles, the vertical alignments and the text shadows of the styles in it are numbers. -/
theorem difference_self_iff (s : ComputedStyle) :
    s.difference s = .equal ↔ ∀ style, s.Within style → ∀ x ∈ style.own.exposed, x ≠ .nan := by
  induction s using induction_pseudos with
  | step s ih =>
    rw [difference_eq_equal_iff, OwnStyle.difference_self_eq_equal_iff,
      forall_within_iff]
    refine and_congr_right fun _ => forall_congr' fun p => ?_
    rw [pseudoDifference_self_iff]
    refine forall₂_congr fun style hp => ?_
    obtain ⟨entry, hentry, rfl⟩ := mem_of_pseudo? hp
    exact ih entry hentry

/-- A font size that is too great comes to infinity, and a side of the clip rectangle that is zero
times that to no number. The style of such an element differs from itself. -/
theorem apply_difference_self :
    let c : StyleContext := ⟨.initial 0 16, .default, .approximate, none, none, true, 16⟩
    let ds : List Declaration :=
      [⟨.known .fontSize, .length ⟨1e38, .pc⟩, false⟩,
        ⟨.known .clip, .rect ⟨some ⟨0, .em⟩, none, none, none⟩, false⟩]
    (∀ d ∈ ds, d.Fits) ∧ ∃ s, c.apply 1 ds = .ok s ∧ s.difference s = .containingBlockLayout := by
  intro c ds
  have hfits : ∀ d ∈ ds, d.Fits := by
    intro d hd
    rcases List.mem_pair.mp hd with rfl | rfl <;> exact Declaration.fits_of_root rfl
  obtain ⟨s, hs⟩ := StyleContext.exists_apply hfits c 1
  have hseen : (c.apply 1 ds).map (fun s => s.difference s) = .ok .containingBlockLayout := by
    decide +kernel
  rw [hs] at hseen
  exact ⟨hfits, s, hs, Except.ok.inj hseen⟩

end ComputedStyle

end StyleEngine
