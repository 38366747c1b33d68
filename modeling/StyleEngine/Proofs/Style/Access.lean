import StyleEngine.Proofs.Style.Plain

/-!
# Reads and writes of fields

A read sees the last write to its field and no write to another one. Since a write of a value that
equals the stored one is left out, the value read may then be an equal one: the zero of the other
sign.

## Main definitions

* `LawfulGroup`: groups in which fields are independent.
* `OwnStyle.Holds`: a value is stored, or one that equals it.

## Main statements

* `OwnStyle.get_set_of_ne`, `OwnStyle.holds_set`: reads after a write.
-/

namespace StyleEngine

/-! ## Equality of values -/

instance : (f : InheritedKeywords.Field) → BEq f.Value
  | .visibility => inferInstanceAs (BEq Visibility)
  | .whiteSpace => inferInstanceAs (BEq WhiteSpace)
  | .textAlign => inferInstanceAs (BEq TextAlign)
  | .textTransform => inferInstanceAs (BEq TextTransform)
  | .direction => inferInstanceAs (BEq Direction)
  | .listStyleType => inferInstanceAs (BEq ListStyleType)
  | .listStylePosition => inferInstanceAs (BEq ListStylePosition)
  | .borderCollapse => inferInstanceAs (BEq BorderCollapse)
  | .captionSide => inferInstanceAs (BEq CaptionSide)
  | .emptyCells => inferInstanceAs (BEq EmptyCells)
  | .cursor => inferInstanceAs (BEq Cursor)
  | .decorationsInEffect => inferInstanceAs (BEq DecorationLines)

instance : (f : BoxKeywords.Field) → BEq f.Value
  | .display | .unadjustedDisplay => inferInstanceAs (BEq Display)
  | .position => inferInstanceAs (BEq Position)
  | .float => inferInstanceAs (BEq Floating)
  | .clear => inferInstanceAs (BEq Clear)
  | .overflowX | .overflowY => inferInstanceAs (BEq Overflow)
  | .tableLayout => inferInstanceAs (BEq TableLayout)
  | .styleType => inferInstanceAs (BEq (Option PseudoElement))

instance : (f : Field) → BEq f.Value
  | .sizing f => inferInstanceAs (BEq f.Value)
  | .visual f => inferInstanceAs (BEq f.Value)
  | .background f => inferInstanceAs (BEq f.Value)
  | .frame f => inferInstanceAs (BEq f.Value)
  | .generated f => inferInstanceAs (BEq f.Value)
  | .effects f => inferInstanceAs (BEq f.Value)
  | .textEffects f => inferInstanceAs (BEq f.Value)
  | .typography f => inferInstanceAs (BEq f.Value)
  | .inherited f => inferInstanceAs (BEq f.Value)
  | .box f => inferInstanceAs (BEq f.Value)

/-! ## Groups -/

/-- Groups in which a read sees the last write to its field and no other write. -/
class LawfulGroup (γ : Type) [BEq γ] [PlainGroup γ] : Prop where
  get_set : ∀ (g : γ) (f : PlainGroup.Field γ) (v : PlainGroup.Value f),
    PlainGroup.get (PlainGroup.set g f v) f = v
  get_set_of_ne : ∀ (g : γ) {f f' : PlainGroup.Field γ} (v : PlainGroup.Value f), f' ≠ f →
    PlainGroup.get (PlainGroup.set g f v) f' = PlainGroup.get g f'

instance : LawfulGroup Sizing where
  get_set g f v := by cases f <;> rfl
  get_set_of_ne g {f f'} v h := by cases f <;> cases f' <;> first | rfl | exact absurd rfl h

instance : LawfulGroup Visual where
  get_set g f v := by cases f <;> rfl
  get_set_of_ne g {f f'} v h := by cases f <;> cases f' <;> first | rfl | exact absurd rfl h

instance : LawfulGroup Background where
  get_set g f v := by cases f <;> rfl
  get_set_of_ne g {f f'} v h := by cases f <;> cases f' <;> first | rfl | exact absurd rfl h

instance : LawfulGroup Frame where
  get_set g f v := by
    cases f <;> exact (Edges.get_set _ _ _ v).trans (if_pos rfl)
  get_set_of_ne g {f f'} v h := by
    have hside {α : Type} (e : Edges α) {side side' : Side} (a : α) (hne : side ≠ side') :
        (e.set side a).get side' = e.get side' :=
      (Edges.get_set e side side' a).trans (if_neg hne)
    cases f <;> cases f' <;> first | rfl | exact hside _ v fun heq => h (congrArg _ heq.symm)

instance : LawfulGroup Generated where
  get_set g f v := by cases f <;> rfl
  get_set_of_ne g {f f'} v h := by cases f <;> cases f' <;> first | rfl | exact absurd rfl h

instance : LawfulGroup Effects where
  get_set g f v := by cases f <;> rfl
  get_set_of_ne g {f f'} v h := by cases f <;> cases f' <;> first | rfl | exact absurd rfl h

instance : LawfulGroup TextEffects where
  get_set g f v := by cases f <;> rfl
  get_set_of_ne g {f f'} v h := by cases f <;> cases f' <;> first | rfl | exact absurd rfl h

instance : LawfulGroup Typography where
  get_set g f v := by cases f <;> rfl
  get_set_of_ne g {f f'} v h := by cases f <;> cases f' <;> first | rfl | exact absurd rfl h

/-! ## Styles -/

namespace OwnStyle

/-- The field holds the value, or one that equals it. -/
def Holds (s : OwnStyle) (f : Field) (v : f.Value) : Prop :=
  s.get f = v ∨ (s.get f == v) = true

section Write

variable {γ : Type} [BEq γ] [PlainGroup γ] [LawfulGroup γ] (build : Shared γ → OwnStyle)
  (g : Shared γ) (stamp : Stamp) {f : PlainGroup.Field γ} (v : PlainGroup.Value f)

/-- What is read of a style that is built around a group does not change with a write to the group
unless it hangs on the field. -/
theorem get_write_of_ne {α : Type} (read : OwnStyle → α)
    (hread : ∀ {x y : Shared γ}, (∀ f', f' ≠ f → PlainGroup.get x.value f' =
      PlainGroup.get y.value f') → read (build x) = read (build y)) :
    read (if PlainGroup.get g.value f == v then build g
      else build (.write stamp (PlainGroup.set g.value f v))) = read (build g) := by
  split
  · rfl
  · exact hread fun f' hf' => LawfulGroup.get_set_of_ne g.value v hf'

/-- A write to the group that a style is built around leaves the value, or an equal one. -/
theorem holds_write {field : Field} {value : field.Value}
    (hread : ∀ x : Shared γ, (build x).Holds field value ↔
      PlainGroup.get x.value f = v ∨ (PlainGroup.get x.value f == v) = true) :
    (if PlainGroup.get g.value f == v then build g
      else build (.write stamp (PlainGroup.set g.value f v))).Holds field value := by
  split
  · next heq => exact (hread g).mpr (.inr heq)
  · exact (hread _).mpr (.inl (LawfulGroup.get_set g.value f v))

end Write

theorem get_set_of_ne (stamp : Stamp) (s : OwnStyle) {f f' : Field} (v : f.Value) (h : f' ≠ f) :
    (s.set stamp f v).get f' = s.get f' := by
  cases f with
  | inherited f =>
    cases f' with
    | inherited f' => cases f <;> cases f' <;> first | rfl | exact absurd rfl h
    | _ => rfl
  | box f =>
    cases f' with
    | box f' => cases f <;> cases f' <;> first | rfl | exact absurd rfl h
    | _ => rfl
  | sizing f =>
    refine get_write_of_ne (fun x => { s with sizing := x }) s.sizing stamp v (get · f')
      fun hreads => ?_
    cases f' with
    | sizing f' => exact hreads f' fun hf => h (congrArg _ hf)
    | _ => rfl
  | visual f =>
    refine get_write_of_ne (fun x => { s with visual := x }) s.visual stamp v (get · f')
      fun hreads => ?_
    cases f' with
    | visual f' => exact hreads f' fun hf => h (congrArg _ hf)
    | _ => rfl
  | background f =>
    refine get_write_of_ne (fun x => { s with background := x }) s.background stamp v (get · f')
      fun hreads => ?_
    cases f' with
    | background f' => exact hreads f' fun hf => h (congrArg _ hf)
    | _ => rfl
  | frame f =>
    refine get_write_of_ne (fun x => { s with frame := x }) s.frame stamp v (get · f')
      fun hreads => ?_
    cases f' with
    | frame f' => exact hreads f' fun hf => h (congrArg _ hf)
    | _ => rfl
  | generated f =>
    refine get_write_of_ne (fun x => { s with generated := x }) s.generated stamp v (get · f')
      fun hreads => ?_
    cases f' with
    | generated f' => exact hreads f' fun hf => h (congrArg _ hf)
    | _ => rfl
  | effects f =>
    refine get_write_of_ne (fun x => { s with effects := x }) s.effects stamp v (get · f')
      fun hreads => ?_
    cases f' with
    | effects f' => exact hreads f' fun hf => h (congrArg _ hf)
    | _ => rfl
  | textEffects f =>
    refine get_write_of_ne (fun x => { s with textEffects := x }) s.textEffects stamp v (get · f')
      fun hreads => ?_
    cases f' with
    | textEffects f' => exact hreads f' fun hf => h (congrArg _ hf)
    | _ => rfl
  | typography f =>
    refine get_write_of_ne (fun x => { s with typography := x }) s.typography stamp v (get · f')
      fun hreads => ?_
    cases f' with
    | typography f' => exact hreads f' fun hf => h (congrArg _ hf)
    | _ => rfl

theorem holds_set (stamp : Stamp) (s : OwnStyle) (f : Field) (v : f.Value) :
    (s.set stamp f v).Holds f v := by
  cases f with
  | inherited f => cases f <;> exact .inl rfl
  | box f => cases f <;> exact .inl rfl
  | sizing f =>
    exact holds_write (fun x => { s with sizing := x }) s.sizing stamp v fun _ => Iff.rfl
  | visual f =>
    exact holds_write (fun x => { s with visual := x }) s.visual stamp v fun _ => Iff.rfl
  | background f =>
    exact holds_write (fun x => { s with background := x }) s.background stamp v fun _ => Iff.rfl
  | frame f =>
    exact holds_write (fun x => { s with frame := x }) s.frame stamp v fun _ => Iff.rfl
  | generated f =>
    exact holds_write (fun x => { s with generated := x }) s.generated stamp v fun _ => Iff.rfl
  | effects f =>
    exact holds_write (fun x => { s with effects := x }) s.effects stamp v fun _ => Iff.rfl
  | textEffects f =>
    exact holds_write (fun x => { s with textEffects := x }) s.textEffects stamp v fun _ => Iff.rfl
  | typography f =>
    exact holds_write (fun x => { s with typography := x }) s.typography stamp v fun _ => Iff.rfl

end OwnStyle

end StyleEngine
