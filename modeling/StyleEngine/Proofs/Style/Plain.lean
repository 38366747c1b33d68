import StyleEngine.Proofs.Style.Group

/-!
# Styles by their contents

The plain form of a style is the style with the signs of zeros and the identities of groups dropped.
Sharing groups with another style keeps it, and a write changes it in one field, whether or not the
write is skipped because the stored value is equal.

## Main definitions

* `OwnStyle.plainForm`, `ComputedStyle.plainForm`: the plain form of a style.
* `OwnStyle.Numeric`, `ComputedStyle.Numeric`: styles in which every number is one.

## Main statements

* `OwnStyle.plainForm_set`: what a write does to the plain form.
* `ComputedStyle.plainForm_compactWith`: sharing does nothing to it.
* `ComputedStyle.Numeric.beq_of_plainForm_eq`: styles of one plain form are equal.
-/

namespace StyleEngine

/-! ## Shared groups -/

namespace Shared

variable {γ : Type} [BEq γ] [PlainGroup γ]

/-- The plain contents under no identity in particular. -/
def plainForm (g : Shared γ) : Shared γ :=
  ⟨0, PlainGroup.plainForm g.value⟩

theorem plainForm_adopt (mine theirs : Shared γ) :
    (mine.adopt theirs).plainForm = mine.plainForm := by
  unfold adopt
  split
  · next h =>
    rw [Bool.and_eq_true] at h
    simp only [plainForm, PlainGroup.plainForm_eq_of_beq h.2]
  · rfl

/-- Handles to contents of one plain form are equal, if the contents are equal to themselves. -/
theorem beq_of_plainForm_eq {g g' : Shared γ} (h : g.plainForm = g'.plainForm)
    (hself : (g.value == g.value) = true) : (g == g') = true := by
  have hvalue : PlainGroup.plainForm g.value = PlainGroup.plainForm g'.value :=
    congrArg Shared.value h
  change (g.same g' || g.value == g'.value) = true
  rw [PlainGroup.beq_of_plainForm_eq hvalue hself, Bool.or_true]

/-- A group is taken over if its contents have the same plain form. -/
theorem same_adopt_of_plainForm_eq {mine theirs : Shared γ} (h : mine.plainForm = theirs.plainForm)
    (hself : (mine.value == mine.value) = true) : (mine.adopt theirs).same theirs = true := by
  have hvalue : (mine.value == theirs.value) = true :=
    PlainGroup.beq_of_plainForm_eq (congrArg Shared.value h) hself
  unfold adopt
  cases hsame : mine.same theirs <;> simp [hvalue, hsame]

/-- A write that is skipped because the values are equal would not have changed the plain form. -/
theorem plainForm_write (g : Shared γ) (stamp : Stamp) (f : PlainGroup.Field γ)
    (v : PlainGroup.Value f) :
    (if PlainGroup.get g.value f == v then g
      else .write stamp (PlainGroup.set g.value f v)).plainForm =
      ⟨0, PlainGroup.set (PlainGroup.plainForm g.value) f (plain v)⟩ := by
  split
  · next h =>
    rw [← Plain.plain_eq_of_beq h, ← PlainGroup.get_plainForm, PlainGroup.set_get]
    rfl
  · rw [← PlainGroup.plainForm_set]
    rfl

end Shared

/-! ## Styles -/

/-- The plain form of a value of a field. -/
def Field.plainValue : (f : Field) → f.Value → f.Value
  | .sizing f, v => plain (α := f.Value) v
  | .visual f, v => plain (α := f.Value) v
  | .background f, v => plain (α := f.Value) v
  | .frame f, v => plain (α := f.Value) v
  | .generated f, v => plain (α := f.Value) v
  | .effects f, v => plain (α := f.Value) v
  | .textEffects f, v => plain (α := f.Value) v
  | .typography f, v => plain (α := f.Value) v
  | .inherited _, v => v
  | .box _, v => v

namespace OwnStyle

/-- The style with plain contents, in groups under no identity in particular. -/
def plainForm (s : OwnStyle) : OwnStyle where
  sizing := s.sizing.plainForm
  visual := s.visual.plainForm
  background := s.background.plainForm
  frame := s.frame.plainForm
  generated := s.generated.plainForm
  effects := s.effects.plainForm
  textEffects := s.textEffects.plainForm
  typography := s.typography.plainForm
  inherited := s.inherited
  box := s.box

/-- Writes a value without a look at the stored one. -/
def overwrite (s : OwnStyle) : (f : Field) → f.Value → OwnStyle
  | .sizing f, v => { s with sizing := ⟨0, s.sizing.value.set f v⟩ }
  | .visual f, v => { s with visual := ⟨0, s.visual.value.set f v⟩ }
  | .background f, v => { s with background := ⟨0, s.background.value.set f v⟩ }
  | .frame f, v => { s with frame := ⟨0, s.frame.value.set f v⟩ }
  | .generated f, v => { s with generated := ⟨0, s.generated.value.set f v⟩ }
  | .effects f, v => { s with effects := ⟨0, s.effects.value.set f v⟩ }
  | .textEffects f, v => { s with textEffects := ⟨0, s.textEffects.value.set f v⟩ }
  | .typography f, v => { s with typography := ⟨0, s.typography.value.set f v⟩ }
  | .inherited f, v => { s with inherited := s.inherited.set f v }
  | .box f, v => { s with box := s.box.set f v }

/-- A style that is built around a group is written to by writing to the group. -/
theorem plainForm_write {γ : Type} [BEq γ] [PlainGroup γ] (build build' : Shared γ → OwnStyle)
    (hbuild : ∀ x, (build x).plainForm = build' x.plainForm) (g : Shared γ) (stamp : Stamp)
    (f : PlainGroup.Field γ) (v : PlainGroup.Value f) :
    (if PlainGroup.get g.value f == v then build g
      else build (.write stamp (PlainGroup.set g.value f v))).plainForm =
      build' ⟨0, PlainGroup.set (PlainGroup.plainForm g.value) f (plain v)⟩ := by
  rw [← g.plainForm_write stamp f v]
  split <;> exact hbuild _

/-- A write puts the plain value in its field, whatever was stored. -/
theorem plainForm_set (stamp : Stamp) (s : OwnStyle) (f : Field) (v : f.Value) :
    (s.set stamp f v).plainForm = s.plainForm.overwrite f (f.plainValue v) := by
  cases f with
  | inherited f | box f => rfl
  | sizing f =>
    exact plainForm_write (fun x => { s with sizing := x })
      (fun x => { s.plainForm with sizing := x }) (fun _ => rfl) s.sizing stamp f v
  | visual f =>
    exact plainForm_write (fun x => { s with visual := x })
      (fun x => { s.plainForm with visual := x }) (fun _ => rfl) s.visual stamp f v
  | background f =>
    exact plainForm_write (fun x => { s with background := x })
      (fun x => { s.plainForm with background := x }) (fun _ => rfl) s.background stamp f v
  | frame f =>
    exact plainForm_write (fun x => { s with frame := x })
      (fun x => { s.plainForm with frame := x }) (fun _ => rfl) s.frame stamp f v
  | generated f =>
    exact plainForm_write (fun x => { s with generated := x })
      (fun x => { s.plainForm with generated := x }) (fun _ => rfl) s.generated stamp f v
  | effects f =>
    exact plainForm_write (fun x => { s with effects := x })
      (fun x => { s.plainForm with effects := x }) (fun _ => rfl) s.effects stamp f v
  | textEffects f =>
    exact plainForm_write (fun x => { s with textEffects := x })
      (fun x => { s.plainForm with textEffects := x }) (fun _ => rfl) s.textEffects stamp f v
  | typography f =>
    exact plainForm_write (fun x => { s with typography := x })
      (fun x => { s.plainForm with typography := x }) (fun _ => rfl) s.typography stamp f v

theorem get_plainForm (s : OwnStyle) (f : Field) : s.plainForm.get f = f.plainValue (s.get f) := by
  cases f with
  | inherited f | box f => rfl
  | sizing f => exact PlainGroup.get_plainForm s.sizing.value f
  | visual f => exact PlainGroup.get_plainForm s.visual.value f
  | background f => exact PlainGroup.get_plainForm s.background.value f
  | frame f => exact PlainGroup.get_plainForm s.frame.value f
  | generated f => exact PlainGroup.get_plainForm s.generated.value f
  | effects f => exact PlainGroup.get_plainForm s.effects.value f
  | textEffects f => exact PlainGroup.get_plainForm s.textEffects.value f
  | typography f => exact PlainGroup.get_plainForm s.typography.value f

/-- Every group is equal to itself by value, which it is unless a number in it is none. -/
structure Numeric (s : OwnStyle) : Prop where
  sizing : (s.sizing.value == s.sizing.value) = true
  visual : (s.visual.value == s.visual.value) = true
  background : (s.background.value == s.background.value) = true
  frame : (s.frame.value == s.frame.value) = true
  effects : (s.effects.value == s.effects.value) = true
  textEffects : (s.textEffects.value == s.textEffects.value) = true
  typography : (s.typography.value == s.typography.value) = true

theorem numeric_iff {s : OwnStyle} :
    s.Numeric ↔ (s.sizing.value == s.sizing.value) = true ∧
      (s.visual.value == s.visual.value) = true ∧
      (s.background.value == s.background.value) = true ∧
      (s.frame.value == s.frame.value) = true ∧ (s.effects.value == s.effects.value) = true ∧
      (s.textEffects.value == s.textEffects.value) = true ∧
      (s.typography.value == s.typography.value) = true :=
  ⟨fun ⟨h₁, h₂, h₃, h₄, h₅, h₆, h₇⟩ => ⟨h₁, h₂, h₃, h₄, h₅, h₆, h₇⟩,
    fun ⟨h₁, h₂, h₃, h₄, h₅, h₆, h₇⟩ => ⟨h₁, h₂, h₃, h₄, h₅, h₆, h₇⟩⟩

instance (s : OwnStyle) : Decidable s.Numeric :=
  decidable_of_iff _ numeric_iff.symm

theorem beq_eq (s s' : OwnStyle) :
    (s == s') = (s.sizing == s'.sizing && (s.visual == s'.visual &&
      (s.background == s'.background && (s.frame == s'.frame && (s.generated == s'.generated &&
        (s.effects == s'.effects && (s.textEffects == s'.textEffects &&
          (s.typography == s'.typography && (s.inherited == s'.inherited &&
            s.box == s'.box))))))))) :=
  rfl

theorem box_eq_of_beq {s s' : OwnStyle} (h : (s == s') = true) : s.box = s'.box := by
  simp only [beq_eq, Bool.and_eq_true] at h
  exact eq_of_beq h.2.2.2.2.2.2.2.2.2

theorem Numeric.beq_of_plainForm_eq {s s' : OwnStyle} (hs : s.Numeric)
    (h : s.plainForm = s'.plainForm) : (s == s') = true := by
  have hinherited : s.inherited = s'.inherited := by
    have hkeywords := congrArg OwnStyle.inherited h
    exact hkeywords
  have hbox : s.box = s'.box := by
    have hkeywords := congrArg OwnStyle.box h
    exact hkeywords
  simp only [beq_eq, Bool.and_eq_true]
  exact ⟨Shared.beq_of_plainForm_eq (congrArg OwnStyle.sizing h) hs.sizing,
    Shared.beq_of_plainForm_eq (congrArg OwnStyle.visual h) hs.visual,
    Shared.beq_of_plainForm_eq (congrArg OwnStyle.background h) hs.background,
    Shared.beq_of_plainForm_eq (congrArg OwnStyle.frame h) hs.frame,
    Shared.beq_of_plainForm_eq (congrArg OwnStyle.generated h) (beq_self_eq_true _),
    Shared.beq_of_plainForm_eq (congrArg OwnStyle.effects h) hs.effects,
    Shared.beq_of_plainForm_eq (congrArg OwnStyle.textEffects h) hs.textEffects,
    Shared.beq_of_plainForm_eq (congrArg OwnStyle.typography h) hs.typography,
    beq_iff_eq.mpr hinherited, beq_iff_eq.mpr hbox⟩

/-- Whether every number is one can be told from the plain form. -/
theorem Numeric.of_plainForm_eq {s s' : OwnStyle} (hs : s.Numeric)
    (h : s.plainForm = s'.plainForm) : s'.Numeric where
  sizing := PlainGroup.beq_self_of_plainForm_eq (congrArg (·.sizing.value) h) hs.sizing
  visual := PlainGroup.beq_self_of_plainForm_eq (congrArg (·.visual.value) h) hs.visual
  background :=
    PlainGroup.beq_self_of_plainForm_eq (congrArg (·.background.value) h) hs.background
  frame := PlainGroup.beq_self_of_plainForm_eq (congrArg (·.frame.value) h) hs.frame
  effects := PlainGroup.beq_self_of_plainForm_eq (congrArg (·.effects.value) h) hs.effects
  textEffects :=
    PlainGroup.beq_self_of_plainForm_eq (congrArg (·.textEffects.value) h) hs.textEffects
  typography :=
    PlainGroup.beq_self_of_plainForm_eq (congrArg (·.typography.value) h) hs.typography

section Congruence

variable {s s' : OwnStyle} (h : s.plainForm = s'.plainForm)

include h

theorem plainForm_set_congr (stamp stamp' : Stamp) {f : Field} {v v' : f.Value}
    (hv : f.plainValue v = f.plainValue v') :
    (s.set stamp f v).plainForm = (s'.set stamp' f v').plainForm := by
  rw [plainForm_set, plainForm_set, h, hv]

theorem box_eq_of_plainForm : s.box = s'.box := by
  have hbox := congrArg box h
  exact hbox

theorem inherited_eq_of_plainForm : s.inherited = s'.inherited := by
  have hinherited := congrArg inherited h
  exact hinherited

theorem textDecoration_eq_of_plainForm :
    s.visual.value.textDecoration = s'.visual.value.textDecoration := by
  have hlines := congrArg (·.visual.value.textDecoration) h
  exact hlines

theorem font_eq_of_plainForm :
    s.typography.value.font.plainForm = s'.typography.value.font.plainForm := by
  have hfont := congrArg (·.typography.value.font) h
  exact hfont

theorem plainForm_with_box {k k' : BoxKeywords} (hk : k = k') :
    { s with box := k }.plainForm = { s' with box := k' }.plainForm := by
  change { s.plainForm with box := k } = { s'.plainForm with box := k' }
  rw [h, hk]

theorem plainForm_with_inherited {k k' : InheritedKeywords} (hk : k = k') :
    { s with inherited := k }.plainForm = { s' with inherited := k' }.plainForm := by
  change { s.plainForm with inherited := k } = { s'.plainForm with inherited := k' }
  rw [h, hk]

end Congruence

end OwnStyle

namespace ComputedStyle

mutual
/-- The style with plain contents, the styles of pseudo-elements included. -/
def plainForm (s : ComputedStyle) : ComputedStyle :=
  match s with
  | ⟨own, pseudos⟩ => ⟨own.plainForm, plainPseudos pseudos⟩
def plainPseudos (l : List (PseudoElement × ComputedStyle)) :
    List (PseudoElement × ComputedStyle) :=
  match l with
  | [] => []
  | (p, s) :: l => (p, plainForm s) :: plainPseudos l
end

theorem plainPseudos_eq_map (l : List (PseudoElement × ComputedStyle)) :
    plainPseudos l = l.map fun entry => (entry.1, entry.2.plainForm) := by
  induction l with
  | nil => rw [plainPseudos, List.map_nil]
  | cons entry l ih => rw [plainPseudos, List.map_cons, ih]

theorem plainForm_eq (s : ComputedStyle) :
    s.plainForm =
      ⟨s.own.plainForm, s.pseudos.map fun entry => (entry.1, entry.2.plainForm)⟩ := by
  obtain ⟨own, pseudos⟩ := s
  rw [plainForm, plainPseudos_eq_map]

theorem own_plainForm (s : ComputedStyle) : s.plainForm.own = s.own.plainForm := by
  rw [plainForm_eq]

theorem pseudos_plainForm (s : ComputedStyle) :
    s.plainForm.pseudos = s.pseudos.map fun entry => (entry.1, entry.2.plainForm) := by
  rw [plainForm_eq]

/-- Styles have one plain form if what they hold has. -/
theorem plainForm_congr {s s' : ComputedStyle} (hown : s.own.plainForm = s'.own.plainForm)
    (hpseudos : (s.pseudos.map fun entry => (entry.1, entry.2.plainForm)) =
      s'.pseudos.map fun entry => (entry.1, entry.2.plainForm)) :
    s.plainForm = s'.plainForm := by
  rw [plainForm_eq, plainForm_eq, hown, hpseudos]

/-- Every number in the style and in those of pseudo-elements is one. -/
inductive Numeric : ComputedStyle → Prop
  | node {own : OwnStyle} {pseudos : List (PseudoElement × ComputedStyle)} (hown : own.Numeric)
    (hpseudos : ∀ entry ∈ pseudos, Numeric entry.2) : Numeric ⟨own, pseudos⟩

mutual
/-- Looks for a number that is none. -/
def isNumeric (s : ComputedStyle) : Bool :=
  match s with
  | ⟨own, pseudos⟩ => decide own.Numeric && allNumeric pseudos
def allNumeric (l : List (PseudoElement × ComputedStyle)) : Bool :=
  match l with
  | [] => true
  | (_, s) :: l => isNumeric s && allNumeric l
end

mutual
theorem numeric_of_isNumeric (s : ComputedStyle) (h : s.isNumeric = true) : s.Numeric := by
  match s with
  | ⟨own, pseudos⟩ =>
    rw [isNumeric, Bool.and_eq_true, decide_eq_true_iff] at h
    exact .node h.1 (numeric_of_allNumeric pseudos h.2)
theorem numeric_of_allNumeric (l : List (PseudoElement × ComputedStyle))
    (h : allNumeric l = true) : ∀ entry ∈ l, entry.2.Numeric := by
  match l with
  | [] => exact fun _ hentry => absurd hentry List.not_mem_nil
  | (_, s) :: l =>
    rw [allNumeric, Bool.and_eq_true] at h
    exact List.forall_mem_cons.mpr ⟨numeric_of_isNumeric s h.1, numeric_of_allNumeric l h.2⟩
end

theorem allNumeric_eq_all (l : List (PseudoElement × ComputedStyle)) :
    allNumeric l = l.all fun entry => entry.2.isNumeric := by
  induction l with
  | nil => rw [allNumeric, List.all_nil]
  | cons entry l ih => rw [allNumeric, List.all_cons, ih]

theorem Numeric.isNumeric {s : ComputedStyle} (h : s.Numeric) : s.isNumeric = true := by
  induction h with
  | @node own pseudos hown _ ih =>
    rw [ComputedStyle.isNumeric, decide_eq_true hown, Bool.true_and, allNumeric_eq_all,
      List.all_eq_true]
    exact ih

instance (s : ComputedStyle) : Decidable s.Numeric :=
  decidable_of_iff (s.isNumeric = true) ⟨numeric_of_isNumeric s, Numeric.isNumeric⟩

/-- Pseudo-element styles are equal if each is equal to all styles of its plain form. -/
theorem beqPseudos_of_plainForm_eq {l l' : List (PseudoElement × ComputedStyle)}
    (hstyles : ∀ entry ∈ l, ∀ {s' : ComputedStyle}, entry.2.plainForm = s'.plainForm →
      (entry.2 == s') = true)
    (h : (l.map fun entry => (entry.1, entry.2.plainForm)) =
      l'.map fun entry => (entry.1, entry.2.plainForm)) : beqPseudos l l' = true := by
  induction l generalizing l' with
  | nil =>
    obtain rfl := List.map_eq_nil_iff.mp h.symm
    rfl
  | cons entry l ih =>
    cases l' with
    | nil => cases h
    | cons entry' l' =>
      obtain ⟨hhead, htail⟩ := List.cons.inj h
      obtain ⟨hp, hstyle⟩ := Prod.mk.inj hhead
      have hentry := hstyles entry List.mem_cons_self hstyle
      have hrest := ih (fun e he => hstyles e (List.mem_cons_of_mem entry he)) htail
      rw [beqPseudos, hrest, Bool.and_true, Bool.and_eq_true]
      exact ⟨beq_iff_eq.mpr hp, hentry⟩

/-- Styles of one plain form are equal, unless a number in them is none. -/
theorem Numeric.beq_of_plainForm_eq {s s' : ComputedStyle} (hs : s.Numeric)
    (h : s.plainForm = s'.plainForm) : (s == s') = true := by
  induction hs generalizing s' with
  | @node own pseudos hown hpseudos ih =>
    obtain ⟨own', pseudos'⟩ := s'
    rw [plainForm_eq, plainForm_eq] at h
    obtain ⟨hplain, hplains⟩ := ComputedStyle.mk.inj h
    change beq _ _ = true
    rw [beq, hown.beq_of_plainForm_eq hplain, Bool.true_and]
    exact beqPseudos_of_plainForm_eq ih hplains

theorem Numeric.of_plainForm_eq {s s' : ComputedStyle} (hs : s.Numeric)
    (h : s.plainForm = s'.plainForm) : s'.Numeric := by
  induction hs generalizing s' with
  | @node own pseudos hown _ ih =>
    obtain ⟨own', pseudos'⟩ := s'
    rw [plainForm_eq, plainForm_eq] at h
    obtain ⟨hplain, hplains⟩ := ComputedStyle.mk.inj h
    refine .node (hown.of_plainForm_eq hplain) fun entry' hentry' => ?_
    have hmem : (entry'.1, entry'.2.plainForm) ∈
        pseudos.map fun entry => (entry.1, entry.2.plainForm) :=
      hplains ▸ List.mem_map_of_mem hentry'
    obtain ⟨entry, hentry, heq⟩ := List.mem_map.mp hmem
    exact ih entry hentry (Prod.mk.inj heq).2

theorem isFloating_eq_of_beq {s s' : ComputedStyle} (h : (s == s') = true) :
    s.isFloating = s'.isFloating := by
  obtain ⟨own, pseudos⟩ := s
  obtain ⟨own', pseudos'⟩ := s'
  change beq _ _ = true at h
  rw [beq, Bool.and_eq_true] at h
  rw [isFloating, isFloating, OwnStyle.box_eq_of_beq h.1]

/-- Sharing groups with another style shows in identities and signs of zeros only. -/
theorem plainForm_compactWith (s similar : ComputedStyle) :
    (s.compactWith similar).plainForm = s.plainForm := by
  refine plainForm_congr ?_ rfl
  simp only [compactWith, OwnStyle.plainForm, Shared.plainForm_adopt]

section Congruence

variable {s s' : ComputedStyle} (h : s.plainForm = s'.plainForm)

include h

theorem own_eq_of_plainForm : s.own.plainForm = s'.own.plainForm := by
  rw [← own_plainForm, h, own_plainForm]

theorem pseudos_eq_of_plainForm :
    (s.pseudos.map fun entry => (entry.1, entry.2.plainForm)) =
      s'.pseudos.map fun entry => (entry.1, entry.2.plainForm) := by
  rw [← pseudos_plainForm, h, pseudos_plainForm]

theorem styleType_eq_of_plainForm : s.styleType = s'.styleType :=
  congrArg BoxKeywords.styleType (OwnStyle.box_eq_of_plainForm (own_eq_of_plainForm h))

theorem isFloating_eq_of_plainForm : s.isFloating = s'.isFloating := by
  rw [isFloating, isFloating, OwnStyle.box_eq_of_plainForm (own_eq_of_plainForm h)]

theorem fontSize_eq_of_plainForm : plainZero s.fontSize = plainZero s'.fontSize := by
  have hsize := congrArg (·.typography.value.font.size) (own_eq_of_plainForm h)
  exact hsize

theorem content_eq_of_plainForm :
    s.own.generated.value.content = s'.own.generated.value.content := by
  have hcontent := congrArg (·.generated.value.content) (own_eq_of_plainForm h)
  exact hcontent

theorem plainForm_inheritFrom {p p' : ComputedStyle} (hp : p.plainForm = p'.plainForm) :
    (s.inheritFrom p).plainForm = (s'.inheritFrom p').plainForm := by
  have hown := own_eq_of_plainForm h
  have hparent := own_eq_of_plainForm hp
  have hpseudos := pseudos_eq_of_plainForm h
  have hform (s p : ComputedStyle) : (s.inheritFrom p).own.plainForm =
      { s.own.plainForm with
        textEffects := p.own.plainForm.textEffects
        typography := p.own.plainForm.typography
        inherited := (s.inheritFrom p).own.inherited } := rfl
  have hkeywords : (s.inheritFrom p).own.inherited = (s'.inheritFrom p').own.inherited := by
    simp only [inheritFrom, styleType_eq_of_plainForm h, OwnStyle.inherited_eq_of_plainForm hparent]
  refine plainForm_congr ?_ hpseudos
  rw [hform, hform, hkeywords, hown, hparent]

end Congruence

/-- A style of the same plain form gives all its groups, unless a number in them is none. -/
theorem Numeric.sharedGroupCount_compactWith {s similar : ComputedStyle} (hs : s.Numeric)
    (h : s.plainForm = similar.plainForm) :
    sharedGroupCount (s.compactWith similar) similar = 8 := by
  have hown := own_eq_of_plainForm h
  obtain ⟨hnumeric, -⟩ := hs
  have hsizing := Shared.same_adopt_of_plainForm_eq (congrArg OwnStyle.sizing hown) hnumeric.sizing
  have hvisual := Shared.same_adopt_of_plainForm_eq (congrArg OwnStyle.visual hown) hnumeric.visual
  have hbackground :=
    Shared.same_adopt_of_plainForm_eq (congrArg OwnStyle.background hown) hnumeric.background
  have hframe := Shared.same_adopt_of_plainForm_eq (congrArg OwnStyle.frame hown) hnumeric.frame
  have hgenerated :=
    Shared.same_adopt_of_plainForm_eq (congrArg OwnStyle.generated hown) (beq_self_eq_true _)
  have heffects :=
    Shared.same_adopt_of_plainForm_eq (congrArg OwnStyle.effects hown) hnumeric.effects
  have htextEffects :=
    Shared.same_adopt_of_plainForm_eq (congrArg OwnStyle.textEffects hown) hnumeric.textEffects
  have htypography :=
    Shared.same_adopt_of_plainForm_eq (congrArg OwnStyle.typography hown) hnumeric.typography
  simp only [sharedGroupCount, sharing, compactWith, hsizing, hvisual, hbackground, hframe,
    hgenerated, heffects, htextEffects, htypography]
  rfl

theorem plainForm_putPseudo (p : PseudoElement) (style : ComputedStyle)
    (l : List (PseudoElement × ComputedStyle)) :
    ((putPseudo p style l).map fun entry => (entry.1, entry.2.plainForm)) =
      putPseudo p style.plainForm (l.map fun entry => (entry.1, entry.2.plainForm)) := by
  induction l with
  | nil => rfl
  | cons entry l ih =>
    rw [putPseudo, List.map_cons, putPseudo]
    split
    · rfl
    · rw [List.map_cons, ih]

theorem mem_putPseudo {p : PseudoElement} {style : ComputedStyle}
    {l : List (PseudoElement × ComputedStyle)} {entry : PseudoElement × ComputedStyle}
    (h : entry ∈ putPseudo p style l) : entry = (p, style) ∨ entry ∈ l := by
  induction l with
  | nil => exact .inl (List.mem_singleton.mp h)
  | cons head l ih =>
    rw [putPseudo] at h
    split at h
    · exact (List.mem_cons.mp h).imp_right (List.mem_cons_of_mem head)
    · rcases List.mem_cons.mp h with rfl | h
      · exact .inr List.mem_cons_self
      · exact (ih h).imp_right (List.mem_cons_of_mem head)

/-- The style of a pseudo-element can be attached. -/
theorem exists_attach (s : ComputedStyle) {style : ComputedStyle} {p : PseudoElement}
    (h : style.styleType = some p) : ∃ s', s.attach style = .ok s' := by
  rw [attach, h]
  exact ⟨_, rfl⟩

/-- Attaching styles of one plain form to styles of one plain form gives such styles. -/
theorem plainForm_attach {s s' style style' : ComputedStyle} (h : s.plainForm = s'.plainForm)
    (hstyle : style.plainForm = style'.plainForm) :
    (s.attach style).map plainForm = (s'.attach style').map plainForm := by
  have hown := own_eq_of_plainForm h
  unfold attach
  rw [styleType_eq_of_plainForm hstyle]
  cases style'.styleType with
  | none => rfl
  | some p =>
    refine congrArg Except.ok (plainForm_congr hown ?_)
    rw [plainForm_putPseudo, plainForm_putPseudo, hstyle, pseudos_eq_of_plainForm h]

end ComputedStyle

end StyleEngine
