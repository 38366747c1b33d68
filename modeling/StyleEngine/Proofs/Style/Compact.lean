import StyleEngine.Proofs.Style.Pool

/-!
# Sharing equal groups

A style that is compacted against another one takes over the groups that are equal there, and only
its handles to them change: it shows what it showed, no other style is touched, and the class of a
change to it or from it stays what it was. Doing it again changes nothing.

## Main definitions

* `Group.all`: the groups in their order.
* `ComputedStyle.ShowsSame`: a style shows what another one shows.

## Main statements

* `ComputedStyle.showsSame_compactWith`, `ComputedStyle.sharing_compactWith`,
  `ComputedStyle.compactWith_compactWith`: what compacting does to a style.
* `StylePool.Sound.compactWith_swaps`: what it does among the styles of a pool.
-/

namespace StyleEngine

namespace Shared

variable {α : Type} [BEq α]

/-- A handle is to the group of another after it has been adopted, if it was or the contents are
equal. -/
theorem same_adopt (mine theirs : Shared α) :
    (mine.adopt theirs).same theirs = (mine.same theirs || mine.value == theirs.value) := by
  unfold adopt
  cases hsame : mine.same theirs <;> cases hvalue : mine.value == theirs.value <;>
    simp [hsame]

theorem adopt_of_same {mine theirs : Shared α} (h : mine.same theirs = true) :
    mine.adopt theirs = mine := by
  simp [adopt, h]

theorem adopt_adopt (mine theirs : Shared α) :
    (mine.adopt theirs).adopt theirs = mine.adopt theirs := by
  by_cases h : (!mine.same theirs && mine.value == theirs.value) = true
  · rw [adopt.eq_def mine theirs, if_pos h, adopt_of_same theirs.same_self]
  · rw [adopt.eq_def mine theirs, if_neg h, adopt.eq_def mine theirs, if_neg h]

end Shared

/-- The groups in the order in which they are counted. -/
def Group.all : List Group :=
  [sizing, visual, background, frame, generated, effects, textEffects, typography]

namespace ComputedStyle

variable {s similar : ComputedStyle}

theorem sharing_eq (a b : ComputedStyle) :
    a.sharing b = Group.all.map fun g => (a.own.handle g).same (b.own.handle g) :=
  rfl

theorem handle_compactWith (s similar : ComputedStyle) (g : Group) :
    (s.compactWith similar).own.handle g = (s.own.handle g).adopt (similar.own.handle g) := by
  cases g <;> rfl

/-- `s'` shows what `s` shows: all values up to the signs of zeros, the keywords and the styles of
pseudo-elements. -/
structure ShowsSame (s s' : ComputedStyle) : Prop where
  get : ∀ f : Field, f.plainValue (s'.get f) = f.plainValue (s.get f)
  font : s'.font.plainForm = s.font.plainForm
  usedBorderWidth : ∀ side, plain (s'.usedBorderWidth side) = plain (s.usedBorderWidth side)
  usedOutlineWidth : plain s'.usedOutlineWidth = plain s.usedOutlineWidth
  isPositioned : s'.isPositioned = s.isPositioned
  isFloating : s'.isFloating = s.isFloating
  inherited : s'.own.inherited = s.own.inherited
  box : s'.own.box = s.own.box
  pseudos : s'.pseudos = s.pseudos

/-- Styles whose groups have one plain form show the same if they agree in the rest. -/
theorem showsSame_of_plainForm {s s' : ComputedStyle} (h : s'.own.plainForm = s.own.plainForm)
    (hpseudos : s'.pseudos = s.pseudos) : ShowsSame s s' := by
  have hget (f : Field) : f.plainValue (s'.own.get f) = f.plainValue (s.own.get f) := by
    rw [← OwnStyle.get_plainForm, ← OwnStyle.get_plainForm, h]
  have hbox := OwnStyle.box_eq_of_plainForm h
  have hborder (side : Side) : s'.own.frame.value.border.styles.get side =
      s.own.frame.value.border.styles.get side := hget (.frame (.borderStyle side))
  have houtline : s'.own.background.value.outlineStyle = s.own.background.value.outlineStyle :=
    hget (.background .outlineStyle)
  exact {
    get := hget
    font := congrArg (·.typography.value.font) h
    usedBorderWidth := fun side => by
      simp only [ComputedStyle.usedBorderWidth, hborder]
      split
      · exact hget (.frame (.borderWidth side))
      · rfl
    usedOutlineWidth := by
      simp only [ComputedStyle.usedOutlineWidth, houtline]
      split
      · exact hget (.background .outlineWidth)
      · rfl
    isPositioned := by
      rw [ComputedStyle.isPositioned, ComputedStyle.isPositioned, position, position, hbox]
    isFloating := by rw [ComputedStyle.isFloating, ComputedStyle.isFloating, hbox]
    inherited := OwnStyle.inherited_eq_of_plainForm h
    box := hbox
    pseudos := hpseudos }

/-- Only handles are exchanged. -/
theorem showsSame_compactWith (s similar : ComputedStyle) :
    ShowsSame s (s.compactWith similar) :=
  showsSame_of_plainForm (own_eq_of_plainForm (plainForm_compactWith s similar)) rfl

/-- The groups that were shared or equal are shared. -/
theorem sharing_compactWith (s similar : ComputedStyle) :
    (s.compactWith similar).sharing similar = Group.all.map fun g =>
      (s.own.handle g).same (similar.own.handle g) ||
        (s.own.handle g).value == (similar.own.handle g).value := by
  rw [sharing_eq]
  refine List.map_congr_left fun g _ => ?_
  rw [handle_compactWith, Shared.same_adopt]

theorem compactWith_compactWith (s similar : ComputedStyle) :
    (s.compactWith similar).compactWith similar = s.compactWith similar := by
  simp only [compactWith, Shared.adopt_adopt]

theorem compactWith_self (s : ComputedStyle) : s.compactWith s = s := by
  obtain ⟨own, pseudos⟩ := s
  simp only [compactWith, Shared.adopt_of_same (Shared.same_self _)]

/-! ## Changes -/

/-- The class of a change hangs on the own part and the pseudo-element styles on either side. -/
theorem difference_congr_own {old old' new new' : ComputedStyle} (h : old.pseudos = old'.pseudos)
    (h' : new.pseudos = new'.pseudos)
    (hown : old.own.difference new.own = old'.own.difference new'.own) :
    old.difference new = old'.difference new' := by
  obtain ⟨own, pseudos⟩ := old
  obtain ⟨own', pseudos'⟩ := old'
  obtain rfl : pseudos = pseudos' := h
  have hfound (p : PseudoElement) : new.pseudo? p = new'.pseudo? p := by
    rw [pseudo?, pseudo?, h']
  have hpseudo (p : PseudoElement) :
      pseudoDifference new p pseudos = pseudoDifference new' p pseudos := by
    have heq := pseudoDifference_eq ⟨own, pseudos⟩ new p
    have heq' := pseudoDifference_eq ⟨own, pseudos⟩ new' p
    rw [heq, heq', hfound]
  simp only [difference, hown, hpseudo]

end ComputedStyle

namespace StylePool

variable {p : StylePool} {i j : Nat} {a b : ComputedStyle}

theorem style?_update_self (f : ComputedStyle → ComputedStyle) (ha : p.style? i = some a) :
    (p.update i f).style? i = some (f a) := by
  have hslot : p.slots[i]? = some (some a) := Option.join_eq_some_iff.mp ha
  obtain ⟨hlt, -⟩ := List.getElem?_eq_some_iff.mp hslot
  rw [update, ha]
  simp [style?, put, hlt]

/-- Compacting changes one style of the pool. -/
theorem style?_compactWith (ha : p.style? i = some a) (hb : p.style? j = some b) (k : Nat) :
    (p.step (.compactWith i j)).style? k =
      if k = i then some (a.compactWith b) else p.style? k := by
  change (p.act (.compactWith i j)).style? k = _
  rw [act, hb, Option.elim_some]
  split
  · next hk => rw [hk, style?_update_self _ ha]
  · next hk => exact style?_update_of_ne hk _

namespace Sound

variable (h : p.Sound)

include h

/-- The class of a change is found by the contents, which a compacted style keeps. -/
theorem difference_compactWith (ha : a.own ∈ p.parts) (hb : b.own ∈ p.parts) {x : ComputedStyle}
    (hx : x.own ∈ p.parts) (hnumeric : x.own.Numeric) (hnumeric' : a.own.Numeric) :
    x.difference (a.compactWith b) = x.difference a ∧
      (a.compactWith b).difference x = a.difference x := by
  have hplain : (a.compactWith b).own.plainForm = a.own.plainForm :=
    ComputedStyle.own_eq_of_plainForm (ComputedStyle.plainForm_compactWith a b)
  have hcoherent := h.insert_composed (ComputedStyle.composed_compactWith ha hb)
  have hcompacted := hnumeric'.of_plainForm_eq hplain.symm
  constructor
  · refine ComputedStyle.difference_congr_own rfl rfl ?_
    exact OwnStyle.difference_congr hnumeric rfl hplain
      ((hcoherent.sharesEqual (.inr hx) (.inl rfl)).alike hcompacted)
      ((h.sharesEqual hx ha).alike hnumeric')
  · refine ComputedStyle.difference_congr_own rfl rfl ?_
    exact OwnStyle.difference_congr hcompacted hplain rfl
      ((hcoherent.sharesEqual (.inl rfl) (.inr hx)).alike hnumeric)
      ((h.sharesEqual ha hx).alike hnumeric)

/-- Compacting a style against another one swaps handles and does nothing else. The style shows what
it showed, all others are left alone, and shared are the groups that were shared or equal by value;
doing it again changes nothing; and the class of a change between the style and any other one of the
pool, pseudo-element styles included, stays what it was. -/
theorem compactWith_swaps (ha : p.style? i = some a) (hb : p.style? j = some b) :
    ∃ a', (p.step (.compactWith i j)).style? i = some a' ∧
      (p.step (.compactWith i j)).style? j = some b ∧
      (∀ k, k ≠ i → (p.step (.compactWith i j)).style? k = p.style? k) ∧
      (p.step (.compactWith i j)).initial = p.initial ∧
      ComputedStyle.ShowsSame a a' ∧
      a'.sharing b = (Group.all.map fun g => (a.own.handle g).same (b.own.handle g) ||
        (a.own.handle g).value == (b.own.handle g).value) ∧
      (∀ k, ((p.step (.compactWith i j)).step (.compactWith i j)).style? k =
        (p.step (.compactWith i j)).style? k) ∧
      ∀ x : ComputedStyle, x.own ∈ p.parts → x.own.Numeric → a.own.Numeric →
        x.difference a' = x.difference a ∧ a'.difference x = a.difference x := by
  have hstep := style?_compactWith ha hb
  have hi : (p.step (.compactWith i j)).style? i = some (a.compactWith b) := by
    rw [hstep, if_pos rfl]
  have hj : (p.step (.compactWith i j)).style? j = some b := by
    rw [hstep]
    split
    · next hij =>
      -- A style that is compacted against itself stays as it is.
      obtain rfl := Option.some.inj (ha.symm.trans (hij ▸ hb))
      rw [ComputedStyle.compactWith_self]
    · exact hb
  refine ⟨a.compactWith b, hi, hj, fun k hk => by rw [hstep, if_neg hk],
    (h.frame (.compactWith i j)).1, ComputedStyle.showsSame_compactWith a b,
    ComputedStyle.sharing_compactWith a b, fun k => ?_, fun x hx hnumeric hnumeric' => ?_⟩
  · rw [style?_compactWith hi hj, ComputedStyle.compactWith_compactWith]
    split
    · next hk => rw [hk, hi]
    · rfl
  · exact h.difference_compactWith (mem_parts_style? ha (.own a)) (mem_parts_style? hb (.own b)) hx
      hnumeric hnumeric'

end Sound

/-- Two styles get widths that are equal but for the identities of their groups. -/
theorem Sound.compactWith_swaps_widths :
    let p := (start 16).run [.fresh, .fresh, .set 0 (.sizing .width) (.fixed 10),
      .set 1 (.sizing .width) (.fixed 10), .set 1 (.frame (.margin .top)) (.fixed 5)]
    ∃ a b, p.style? 0 = some a ∧ p.style? 1 = some b ∧
      a.sharing b = [false, true, true, false, true, true, true, true] ∧
      ∃ a', (p.step (.compactWith 0 1)).style? 0 = some a' ∧
        (p.step (.compactWith 0 1)).style? 1 = some b ∧
        ComputedStyle.ShowsSame a a' ∧
        a'.sharing b = [true, true, true, false, true, true, true, true] ∧
        b.difference a' = b.difference a ∧ a'.difference b = a.difference b := by
  intro p
  have hp : p.Sound := sound_run (sound_start 16) _
  obtain ⟨a, ha⟩ : ∃ a, p.style? 0 = some a := Option.isSome_iff_exists.mp (by decide +kernel)
  obtain ⟨b, hb⟩ : ∃ b, p.style? 1 = some b := Option.isSome_iff_exists.mp (by decide +kernel)
  have hseen : ((p.style? 0).bind fun a => (p.style? 1).map fun b =>
      (a.sharing b, Group.all.map fun g => (a.own.handle g).same (b.own.handle g) ||
        (a.own.handle g).value == (b.own.handle g).value)) =
      some ([false, true, true, false, true, true, true, true],
        [true, true, true, false, true, true, true, true]) := by
    decide +kernel
  have hnumeric : (p.style? 0).all (decide ·.own.Numeric) = true ∧
      (p.style? 1).all (decide ·.own.Numeric) = true := by
    decide +kernel
  rw [ha, hb] at hseen hnumeric
  obtain ⟨hbefore, hafter⟩ := Prod.mk.inj (Option.some.inj hseen)
  obtain ⟨a', hi, hj, -, -, hshows, hsharing, -, hdifference⟩ := hp.compactWith_swaps ha hb
  obtain ⟨hab, hba⟩ := hdifference b (mem_parts_style? hb (.own b)) (of_decide_eq_true hnumeric.2)
    (of_decide_eq_true hnumeric.1)
  exact ⟨a, b, ha, hb, hbefore, a', hi, hj, hshows, hsharing.trans hafter, hab, hba⟩

end StylePool

end StyleEngine
