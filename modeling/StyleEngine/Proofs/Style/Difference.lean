import StyleEngine.Proofs.Style.Access
import StyleEngine.Style.Difference

/-!
# The worst of all changes

A change of a field calls for a class of work by itself, whatever else changed. The class of a
change from one style to another is the greatest that any field and any pseudo-element style calls
for: nothing is lost in the order in which fields are looked at, nor by leaving shared groups alone.

## Main definitions

* `OwnStyle.Calls`: the classes that the fields call for.
* `ComputedStyle.Calls`: the classes that a change of style calls for, pseudo-element styles
  included.

## Main statements

* `ComputedStyle.difference_isWorst`: the difference is the greatest class called for.
* `ComputedStyle.Numeric.difference_of_plainForm_eq`: a change that does not show in the plain form
  is none.
-/

namespace StyleEngine

/-! ## The order of classes -/

namespace Difference

theorem le_refl (d : Difference) : d ≤ d :=
  Nat.le_refl d.cost

theorem le_trans {a b c : Difference} (h : a ≤ b) (h' : b ≤ c) : a ≤ c :=
  Nat.le_trans (m := b.cost) h h'

theorem le_max_left (a b : Difference) : a ≤ max a b := by
  cases a <;> cases b <;> decide

theorem le_max_right (a b : Difference) : b ≤ max a b := by
  cases a <;> cases b <;> decide

theorem max_eq_or (a b : Difference) : max a b = a ∨ max a b = b := by
  cases a <;> cases b <;> decide

theorem le_containingBlockLayout (d : Difference) : d ≤ containingBlockLayout := by
  cases d <;> decide

theorem cappedFor_le {a b : Difference} (h : a ≤ b) (p : PseudoElement) :
    a.cappedFor p ≤ b.cappedFor p := by
  revert h
  cases p <;> cases a <;> cases b <;> decide

@[simp] theorem cappedFor_equal (p : PseudoElement) : equal.cappedFor p = equal := by
  cases p <;> rfl

/-- The greatest of the classes that `calls` holds of, or `equal` if there is none. -/
structure IsWorst (calls : Difference → Prop) (d : Difference) : Prop where
  called : d = equal ∨ calls d
  upper : ∀ d', calls d' → d' ≤ d

/-- The greatest of a class and others is the last of a row of maxima. -/
theorem isWorst_foldl {α : Type} {base : Difference} {calls : Difference → Prop}
    (hbase : IsWorst calls base) {f : α → Difference} {callsAt : α → Difference → Prop}
    {l : List α} (hl : ∀ a ∈ l, IsWorst (callsAt a) (f a)) :
    IsWorst (fun d => calls d ∨ ∃ a ∈ l, callsAt a d) ((l.map f).foldl max base) := by
  induction l generalizing base calls with
  | nil =>
    refine ⟨hbase.called.imp id .inl, fun d hd => hbase.upper d ?_⟩
    simpa using hd
  | cons a l ih =>
    have ha := hl a List.mem_cons_self
    have hmax : IsWorst (fun d => calls d ∨ callsAt a d) (max base (f a)) := by
      constructor
      · rcases max_eq_or base (f a) with h | h <;> rw [h]
        · exact hbase.called.imp id .inl
        · exact ha.called.imp id .inr
      · rintro d (hd | hd)
        · exact le_trans (hbase.upper d hd) (le_max_left base (f a))
        · exact le_trans (ha.upper d hd) (le_max_right base (f a))
    have h := ih hmax fun b hb => hl b (List.mem_cons_of_mem a hb)
    simpa only [List.map_cons, List.foldl_cons, List.exists_mem_cons_iff, or_assoc] using h

theorem IsWorst.single (d : Difference) : IsWorst (· = d) d :=
  ⟨.inr rfl, fun _ h => h ▸ le_refl d⟩

theorem IsWorst.congr {calls calls' : Difference → Prop} {d : Difference} (h : IsWorst calls d)
    (hcalls : ∀ d, calls d ↔ calls' d) : IsWorst calls' d :=
  ⟨h.called.imp id (hcalls d).mp, fun d' hd' => h.upper d' ((hcalls d').mpr hd')⟩

theorem IsWorst.cappedFor {calls : Difference → Prop} {d : Difference} (h : IsWorst calls d)
    (p : PseudoElement) :
    IsWorst (fun d' => ∃ e, calls e ∧ e.cappedFor p = d') (d.cappedFor p) := by
  constructor
  · rcases h.called with rfl | hd
    · exact .inl (cappedFor_equal p)
    · exact .inr ⟨d, hd, rfl⟩
  · rintro d' ⟨e, he, rfl⟩
    exact cappedFor_le (h.upper e he) p

end Difference

/-! ## Fields by what they call for -/

/-- Fields on which the layout of the containing block hangs. -/
def Sizing.Field.ofContainingBlock : List Sizing.Field :=
  [.width, .height, .minWidth, .minHeight, .maxWidth, .maxHeight, .boxSizing]

@[inherit_doc Sizing.Field.ofContainingBlock]
def Typography.Field.ofContainingBlock : List Typography.Field :=
  [.textIndent, .lineHeight, .listStyleImage, .fontFamilies, .specifiedFontSize, .fontSize,
    .fontWeight, .fontStyle, .fontVariant, .letterSpacing, .wordSpacing, .borderSpacingHorizontal,
    .borderSpacingVertical]

/-- Fields that say where a box is and how wide the parts around it are. -/
def Frame.Field.ofGeometry : List Frame.Field :=
  Side.all.map .offset ++ Side.all.map .margin ++ Side.all.map .padding ++
    Side.all.map .borderWidth ++ Side.all.map .borderStyle

/-- Paddings, margins and borders. -/
def Frame.Field.ofSurroundings : List Frame.Field :=
  Side.all.map .padding ++ Side.all.map .margin ++ Side.all.map .borderWidth ++
    Side.all.map .borderStyle ++ Side.all.map .borderColor

namespace Field

@[inherit_doc Sizing.Field.ofContainingBlock]
def ofContainingBlock : List Field :=
  Sizing.Field.ofContainingBlock.map .sizing ++
    [.visual .clip, .box .display, .box .position, .box .float] ++
    Typography.Field.ofContainingBlock.map .typography

/-- Fields on which the layout of the containing block hangs if the box is part of a table. -/
def ofTable : List Field :=
  [.inherited .emptyCells, .inherited .captionSide, .inherited .borderCollapse, .box .tableLayout]

/-- Fields on which the layout of the box hangs. -/
def ofLayout : List Field :=
  [.inherited .textAlign, .inherited .textTransform, .inherited .direction, .inherited .whiteSpace,
    .box .clear, .box .overflowX, .box .overflowY, .sizing .verticalAlign, .textEffects .wordWrap,
    .typography .widows, .typography .orphans, .typography .quotes, .generated .content,
    .generated .counterIncrement, .generated .counterReset]

/-- Fields on which the layout of the box hangs if it is a list item. -/
def ofListItem : List Field :=
  [.inherited .listStyleType, .inherited .listStylePosition]

@[inherit_doc Frame.Field.ofGeometry]
def ofGeometry : List Field :=
  Frame.Field.ofGeometry.map .frame

@[inherit_doc Frame.Field.ofSurroundings]
def ofSurroundings : List Field :=
  Frame.Field.ofSurroundings.map .frame

/-- Fields that show in the picture only. -/
def ofPicture : List Field :=
  [.typography .color, .inherited .visibility, .inherited .decorationsInEffect,
    .visual .textDecoration, .background .color, .background .image, .background .outlineWidth,
    .background .outlineStyle, .background .outlineColor] ++
    Side.all.map (.frame <| .borderColor ·) ++
    [.effects .opacity, .effects .boxShadow, .textEffects .textShadow, .sizing .zIndex]

end Field

namespace OwnStyle

/-- Whether two styles hold values that are not equal in any of the given fields. -/
def differ (a b : OwnStyle) (fs : List Field) : Bool :=
  fs.any fun f => a.get f != b.get f

/-- Whether the new box stays as it was but for its place, which it has in itself. -/
structure Moves (a b : OwnStyle) : Prop where
  surroundings : a.differ b Field.ofSurroundings = false
  positioned : b.box.position.isPositioned = true
  placed : b.box.position = .relative ∨
    (b.get (.frame (.offset .left)) ≠ .auto ∨ b.get (.frame (.offset .right)) ≠ .auto) ∧
      (b.get (.frame (.offset .top)) ≠ .auto ∨ b.get (.frame (.offset .bottom)) ≠ .auto)

/-- The classes that the fields call for when a style changes from `a` to `b`. -/
inductive Calls (a b : OwnStyle) : Difference → Prop
  | containingBlock : a.differ b Field.ofContainingBlock = true → Calls a b .containingBlockLayout
  | table : b.box.display.isTablePart = true → a.differ b Field.ofTable = true →
    Calls a b .containingBlockLayout
  | layout : a.differ b Field.ofLayout = true → Calls a b .layout
  | listItem : b.box.display = .listItem → a.differ b Field.ofListItem = true → Calls a b .layout
  | moved : a.differ b Field.ofGeometry = true → a.Moves b → Calls a b .position
  | reshaped : a.differ b Field.ofGeometry = true → ¬a.Moves b → Calls a b .layout
  | repainted : a.differ b Field.ofPicture = true → Calls a b .visible

/-- Groups that two styles share hold equal contents. -/
structure SharesEqual (a b : OwnStyle) : Prop where
  sizing : a.sizing.same b.sizing = true → a.sizing.value = b.sizing.value
  visual : a.visual.same b.visual = true → a.visual.value = b.visual.value
  background : a.background.same b.background = true → a.background.value = b.background.value
  frame : a.frame.same b.frame = true → a.frame.value = b.frame.value
  generated : a.generated.same b.generated = true → a.generated.value = b.generated.value
  effects : a.effects.same b.effects = true → a.effects.value = b.effects.value
  textEffects : a.textEffects.same b.textEffects = true →
    a.textEffects.value = b.textEffects.value
  typography : a.typography.same b.typography = true → a.typography.value = b.typography.value

end OwnStyle

/-! ## Shared groups -/

section Groups

variable {γ : Type} [BEq γ] [PlainGroup γ]

/-- Groups differ if they differ in a field. -/
theorem PlainGroup.bne_eq_any {g g' : γ} {l : List (Field γ)} (hl : ∀ f, f ∈ l) :
    (g != g') = l.any fun f => get g f != get g' f := by
  rw [Bool.eq_iff_iff, bne, Bool.not_eq_true', Bool.eq_false_iff, Ne, beq_iff, List.any_eq_true]
  simp only [bne, Bool.not_eq_true', not_forall, hl, true_and, Bool.not_eq_true]

/-- Equal groups differ in no field. -/
theorem PlainGroup.any_bne_of_beq {g g' : γ} (h : (g == g') = true) (l : List (Field γ)) :
    (l.any fun f => get g f != get g' f) = false := by
  rw [List.any_eq_false]
  intro f _
  rw [bne, beq_iff.mp h f]
  decide

namespace Shared

variable {g g' : Shared γ} (h : g.same g' = true → (g.value == g'.value) = true)

include h

/-- Leaving shared groups alone loses no field in which they differ. -/
theorem guard_any (l : List (PlainGroup.Field γ)) :
    (!g.same g' && l.any fun f => PlainGroup.get g.value f != PlainGroup.get g'.value f) =
      l.any fun f => PlainGroup.get g.value f != PlainGroup.get g'.value f := by
  cases hsame : g.same g' with
  | false => rw [Bool.not_false, Bool.true_and]
  | true => rw [PlainGroup.any_bne_of_beq (h hsame), Bool.and_false]

theorem bne_eq_any {l : List (PlainGroup.Field γ)} (hl : ∀ f, f ∈ l) :
    (g != g') = l.any fun f => PlainGroup.get g.value f != PlainGroup.get g'.value f := by
  have hbne : (g != g') = (!g.same g' && g.value != g'.value) := by
    change (!(g.same g' || g.value == g'.value)) = _
    rw [Bool.not_or]
    rfl
  rw [hbne, PlainGroup.bne_eq_any hl, guard_any h]

end Shared

end Groups

/-! ## What the fields call for -/

theorem Edges.bne_eq_any {α : Type} [BEq α] (e e' : Edges α) :
    (e != e') = Side.all.any fun side => e.get side != e'.get side := by
  change (!(e.top == e'.top && (e.right == e'.right && (e.bottom == e'.bottom &&
    e.left == e'.left)))) = (e.top != e'.top || (e.right != e'.right || (e.bottom != e'.bottom ||
      (e.left != e'.left || false))))
  simp only [bne, Bool.not_and, Bool.or_false]

namespace OwnStyle

variable {a b : OwnStyle}

theorem differ_append (a b : OwnStyle) (fs fs' : List Field) :
    a.differ b (fs ++ fs') = (a.differ b fs || a.differ b fs') :=
  List.any_append

/-- Groups that two styles share, and that are left alone for it, are equal by value. -/
structure SharesAlike (a b : OwnStyle) : Prop where
  sizing : a.sizing.same b.sizing = true → (a.sizing.value == b.sizing.value) = true
  background : a.background.same b.background = true →
    (a.background.value == b.background.value) = true
  frame : a.frame.same b.frame = true → (a.frame.value == b.frame.value) = true
  generated : a.generated.same b.generated = true → (a.generated.value == b.generated.value) = true
  effects : a.effects.same b.effects = true → (a.effects.value == b.effects.value) = true
  typography : a.typography.same b.typography = true →
    (a.typography.value == b.typography.value) = true

theorem SharesEqual.alike (h : a.SharesEqual b) (hb : b.Numeric) : a.SharesAlike b where
  sizing hsame := h.sizing hsame ▸ hb.sizing
  background hsame := h.background hsame ▸ hb.background
  frame hsame := h.frame hsame ▸ hb.frame
  generated hsame := beq_iff_eq.mpr (h.generated hsame)
  effects hsame := h.effects hsame ▸ hb.effects
  typography hsame := h.typography hsame ▸ hb.typography

section Groups

variable (h : a.SharesAlike b)

include h

theorem guard_differ_sizing (l : List Sizing.Field) :
    (!a.sizing.same b.sizing && a.differ b (l.map .sizing)) = a.differ b (l.map .sizing) := by
  rw [differ, List.any_map]
  exact Shared.guard_any h.sizing l

theorem guard_differ_frame (l : List Frame.Field) :
    (!a.frame.same b.frame && a.differ b (l.map .frame)) = a.differ b (l.map .frame) := by
  rw [differ, List.any_map]
  exact Shared.guard_any h.frame l

theorem guard_differ_typography (l : List Typography.Field) :
    (!a.typography.same b.typography && a.differ b (l.map .typography)) =
      a.differ b (l.map .typography) := by
  rw [differ, List.any_map]
  exact Shared.guard_any h.typography l

theorem needsContainingBlockLayout_eq :
    a.needsContainingBlockLayout b = (a.differ b Field.ofContainingBlock ||
      b.box.display.isTablePart && a.differ b Field.ofTable) := by
  have hfont (f f' : Font) : (f != f') = (f.families != f'.families ||
      (f.specifiedSize != f'.specifiedSize || (f.size != f'.size || (f.weight != f'.weight ||
        (f.style != f'.style || f.variant != f'.variant))))) := by
    change (!(f.families == f'.families && (f.specifiedSize == f'.specifiedSize &&
      (f.size == f'.size && (f.weight == f'.weight && (f.style == f'.style &&
        f.variant == f'.variant)))))) = _
    simp only [bne, Bool.not_and]
  have hguards : a.needsContainingBlockLayout b =
      ((!a.sizing.same b.sizing && a.differ b (Sizing.Field.ofContainingBlock.map .sizing)) ||
        (a.differ b [.visual .clip, .box .display, .box .position, .box .float] ||
          ((!a.typography.same b.typography &&
            a.differ b (Typography.Field.ofContainingBlock.map .typography)) ||
            b.box.display.isTablePart && a.differ b Field.ofTable))) := by
    simp only [differ, Sizing.Field.ofContainingBlock, Typography.Field.ofContainingBlock,
      Field.ofTable, List.map_cons, List.map_nil, List.any_cons, List.any_nil,
      needsContainingBlockLayout, hfont, Bool.or_assoc, Bool.or_false]
    rfl
  rw [hguards, guard_differ_sizing h, guard_differ_typography h, Field.ofContainingBlock,
    differ_append, differ_append, Bool.or_assoc, Bool.or_assoc]

theorem needsLayout_eq :
    a.needsLayout b = (b.box.display == .listItem && a.differ b Field.ofListItem ||
      a.differ b Field.ofLayout) := by
  have hall (f : Generated.Field) :
      f ∈ ([.content, .counterIncrement, .counterReset] : List Generated.Field) := by
    cases f <;> decide
  have hgenerated : (a.generated != b.generated) =
      a.differ b [.generated .content, .generated .counterIncrement, .generated .counterReset] :=
    Shared.bne_eq_any h.generated hall
  simp only [needsLayout, hgenerated, differ, Field.ofListItem, Field.ofLayout, List.any_cons,
    List.any_nil, Bool.or_assoc, Bool.or_false]
  rfl

theorem geometryChanged_eq : a.geometryChanged b = a.differ b Field.ofGeometry := by
  have hguard : a.geometryChanged b =
      (!a.frame.same b.frame && a.differ b (Frame.Field.ofGeometry.map .frame)) := by
    simp only [geometryChanged, Edges.bne_eq_any, differ, Frame.Field.ofGeometry, List.any_map,
      List.any_append]
    rfl
  rw [hguard, guard_differ_frame h, Field.ofGeometry]

theorem needsRepaint_eq : a.needsRepaint b = a.differ b Field.ofPicture := by
  have hall (f : Background.Field) :
      f ∈ ([.color, .image, .outlineWidth, .outlineStyle, .outlineColor] :
        List Background.Field) := by
    cases f <;> decide
  have hall' (f : Effects.Field) : f ∈ ([.opacity, .boxShadow] : List Effects.Field) := by
    cases f <;> decide
  have hbackground : (a.background != b.background) =
      a.differ b [.background .color, .background .image, .background .outlineWidth,
        .background .outlineStyle, .background .outlineColor] :=
    Shared.bne_eq_any h.background hall
  have heffects : (a.effects != b.effects) =
      a.differ b [.effects .opacity, .effects .boxShadow] :=
    Shared.bne_eq_any h.effects hall'
  simp only [needsRepaint, hbackground, heffects, Edges.bne_eq_any, differ, Field.ofPicture,
    List.any_append, List.any_map, List.any_cons, List.any_nil, Bool.or_assoc, Bool.or_false]
  rfl

end Groups

theorem differ_surroundings (a b : OwnStyle) :
    a.differ b Field.ofSurroundings = !a.frame.value.sameBox b.frame.value := by
  have hborder (e e' : Border) : (e == e') =
      (e.widths == e'.widths && (e.styles == e'.styles && e.colors == e'.colors)) := rfl
  have hbne {α : Type} [BEq α] (x y : α) : (!x == y) = (x != y) := rfl
  simp only [differ, Field.ofSurroundings, Frame.Field.ofSurroundings, List.any_map,
    List.any_append, Frame.sameBox, hborder, Bool.not_and, hbne, Edges.bne_eq_any, Bool.or_assoc]
  rfl

theorem movesOnly_iff : a.movesOnly b = true ↔ a.Moves b := by
  have hauto (l : Length) : l.isAuto = true ↔ l = .auto := by
    cases l <;> simp [Length.isAuto]
  have hplaced (l l' : Length) : (!(l.isAuto && l'.isAuto)) = true ↔ l ≠ .auto ∨ l' ≠ .auto := by
    rw [Bool.not_eq_true', ← Bool.not_eq_true, Bool.and_eq_true, hauto, hauto, not_and_or]
  rw [movesOnly]
  simp only [Bool.and_eq_true, Bool.or_eq_true, beq_iff_eq, hplaced]
  constructor
  · rintro ⟨⟨hbox, hpositioned⟩, hplace⟩
    exact ⟨by rw [differ_surroundings, hbox, Bool.not_true], hpositioned, hplace⟩
  · rintro ⟨hbox, hpositioned, hplace⟩
    rw [differ_surroundings, Bool.not_eq_false'] at hbox
    exact ⟨⟨hbox, hpositioned⟩, hplace⟩

section Calls

variable (h : a.SharesAlike b)

include h

theorem calls_containingBlockLayout_iff :
    a.Calls b .containingBlockLayout ↔ a.needsContainingBlockLayout b = true := by
  rw [needsContainingBlockLayout_eq h, Bool.or_eq_true, Bool.and_eq_true]
  constructor
  · intro hcalls
    cases hcalls with
    | containingBlock hblock => exact .inl hblock
    | table hpart htable => exact .inr ⟨hpart, htable⟩
  · rintro (hblock | ⟨hpart, htable⟩)
    · exact .containingBlock hblock
    · exact .table hpart htable

theorem calls_layout_iff :
    a.Calls b .layout ↔
      a.needsLayout b = true ∨ a.geometryChanged b = true ∧ ¬a.movesOnly b = true := by
  rw [needsLayout_eq h, geometryChanged_eq h, movesOnly_iff, Bool.or_eq_true, Bool.and_eq_true,
    beq_iff_eq]
  constructor
  · intro hcalls
    cases hcalls with
    | layout hlayout => exact .inl (.inr hlayout)
    | listItem hitem hlist => exact .inl (.inl ⟨hitem, hlist⟩)
    | reshaped hgeometry hmoves => exact .inr ⟨hgeometry, hmoves⟩
  · rintro ((⟨hitem, hlist⟩ | hlayout) | ⟨hgeometry, hmoves⟩)
    · exact .listItem hitem hlist
    · exact .layout hlayout
    · exact .reshaped hgeometry hmoves

theorem calls_position_iff :
    a.Calls b .position ↔ a.geometryChanged b = true ∧ a.movesOnly b = true := by
  rw [geometryChanged_eq h, movesOnly_iff]
  exact ⟨fun | .moved hgeometry hmoves => ⟨hgeometry, hmoves⟩,
    fun ⟨hgeometry, hmoves⟩ => .moved hgeometry hmoves⟩

theorem calls_visible_iff : a.Calls b .visible ↔ a.needsRepaint b = true := by
  rw [needsRepaint_eq h]
  exact ⟨fun | .repainted hpicture => hpicture, .repainted⟩

/-- Looking at the dearest classes first finds the greatest class. -/
theorem SharesAlike.isWorst_difference : Difference.IsWorst (a.Calls b) (a.difference b) := by
  have hblock_iff := calls_containingBlockLayout_iff h
  have hlayout_iff := calls_layout_iff h
  have hposition_iff := calls_position_iff h
  have hvisible_iff := calls_visible_iff h
  rw [difference]
  split_ifs with hblock hlayout hgeometry hmoves hpicture
  · exact ⟨.inr (hblock_iff.mpr hblock), fun d _ => Difference.le_containingBlockLayout d⟩
  · refine ⟨.inr (hlayout_iff.mpr (.inl hlayout)), fun d hd => ?_⟩
    cases d with
    | containingBlockLayout => exact absurd (hblock_iff.mp hd) hblock
    | _ => decide
  · refine ⟨.inr (hposition_iff.mpr ⟨hgeometry, hmoves⟩), fun d hd => ?_⟩
    cases d with
    | containingBlockLayout => exact absurd (hblock_iff.mp hd) hblock
    | layout => exact (hlayout_iff.mp hd).elim (absurd · hlayout) (absurd hmoves ·.2)
    | _ => decide
  · refine ⟨.inr (hlayout_iff.mpr (.inr ⟨hgeometry, hmoves⟩)), fun d hd => ?_⟩
    cases d with
    | containingBlockLayout => exact absurd (hblock_iff.mp hd) hblock
    | _ => decide
  · refine ⟨.inr (hvisible_iff.mpr hpicture), fun d hd => ?_⟩
    cases d with
    | containingBlockLayout => exact absurd (hblock_iff.mp hd) hblock
    | layout => exact (hlayout_iff.mp hd).elim (absurd · hlayout) (absurd ·.1 hgeometry)
    | position => exact absurd (hposition_iff.mp hd).1 hgeometry
    | _ => decide
  · refine ⟨.inl rfl, fun d hd => ?_⟩
    cases d with
    | containingBlockLayout => exact absurd (hblock_iff.mp hd) hblock
    | layout => exact (hlayout_iff.mp hd).elim (absurd · hlayout) (absurd ·.1 hgeometry)
    | position => exact absurd (hposition_iff.mp hd).1 hgeometry
    | visible => exact absurd (hvisible_iff.mp hd) hpicture
    | equal => decide

end Calls

theorem isWorst_difference (h : a.SharesEqual b) (hb : b.Numeric) :
    Difference.IsWorst (a.Calls b) (a.difference b) :=
  (h.alike hb).isWorst_difference

/-! ## Styles of one plain form -/

section PlainForm

variable (ha : a.Numeric) (h : a.plainForm = b.plainForm)

include ha h

theorem SharesAlike.of_plainForm_eq : a.SharesAlike b where
  sizing _ := PlainGroup.beq_of_plainForm_eq (congrArg (·.sizing.value) h) ha.sizing
  background _ := PlainGroup.beq_of_plainForm_eq (congrArg (·.background.value) h) ha.background
  frame _ := PlainGroup.beq_of_plainForm_eq (congrArg (·.frame.value) h) ha.frame
  generated _ :=
    PlainGroup.beq_of_plainForm_eq (congrArg (·.generated.value) h) (beq_self_eq_true _)
  effects _ := PlainGroup.beq_of_plainForm_eq (congrArg (·.effects.value) h) ha.effects
  typography _ := PlainGroup.beq_of_plainForm_eq (congrArg (·.typography.value) h) ha.typography

theorem get_beq_of_plainForm_eq (f : Field) : (a.get f == b.get f) = true := by
  have kept {γ : Type} [BEq γ] [PlainGroup γ] {g g' : Shared γ} (hg : g.plainForm = g'.plainForm)
      (hself : (g.value == g.value) = true) (f : PlainGroup.Field γ) :
      (PlainGroup.get g.value f == PlainGroup.get g'.value f) = true :=
    PlainGroup.beq_iff.mp (PlainGroup.beq_of_plainForm_eq (congrArg Shared.value hg) hself) f
  cases f with
  | sizing f => exact kept (congrArg OwnStyle.sizing h) ha.sizing f
  | visual f => exact kept (congrArg OwnStyle.visual h) ha.visual f
  | background f => exact kept (congrArg OwnStyle.background h) ha.background f
  | frame f => exact kept (congrArg OwnStyle.frame h) ha.frame f
  | generated f => exact kept (congrArg OwnStyle.generated h) (beq_self_eq_true _) f
  | effects f => exact kept (congrArg OwnStyle.effects h) ha.effects f
  | textEffects f => exact kept (congrArg OwnStyle.textEffects h) ha.textEffects f
  | typography f => exact kept (congrArg OwnStyle.typography h) ha.typography f
  | inherited f =>
    rw [get, get, inherited_eq_of_plainForm h]
    cases f <;> exact beq_self_eq_true _
  | box f =>
    rw [get, get, box_eq_of_plainForm h]
    cases f <;> exact beq_self_eq_true _

theorem differ_of_plainForm_eq (fs : List Field) : a.differ b fs = false := by
  rw [differ, List.any_eq_false]
  intro f _
  rw [bne, get_beq_of_plainForm_eq ha h f]
  decide

theorem not_calls_of_plainForm_eq (d : Difference) : ¬a.Calls b d := by
  have hsame := differ_of_plainForm_eq ha h
  intro hcalls
  cases hcalls with
  | containingBlock hdiffer | layout hdiffer | repainted hdiffer => simp [hsame] at hdiffer
  | table _ hdiffer | listItem _ hdiffer => simp [hsame] at hdiffer
  | moved hdiffer _ | reshaped hdiffer _ => simp [hsame] at hdiffer

/-- A change that does not show in the plain form calls for nothing. -/
theorem difference_of_plainForm_eq : a.difference b = .equal :=
  (SharesAlike.of_plainForm_eq ha h).isWorst_difference.called.resolve_right
    (not_calls_of_plainForm_eq ha h _)

end PlainForm

end OwnStyle

/-! ## Pseudo-element styles -/

namespace ComputedStyle

/-- The classes that a change of style calls for. The style of a pseudo-element calls for what it
would call for by itself, short of layout for some pseudo-elements. -/
inductive Calls : ComputedStyle → ComputedStyle → Difference → Prop
  | own {old new : ComputedStyle} {d : Difference} (h : old.own.Calls new.own d) : Calls old new d
  | exchanged {old new : ComputedStyle} (p : PseudoElement)
    (h : (old.pseudo? p).isSome ≠ (new.pseudo? p).isSome) :
    Calls old new (Difference.layout.cappedFor p)
  | pseudo {old new style style' : ComputedStyle} (p : PseudoElement) {d : Difference}
    (hold : old.pseudo? p = some style) (hnew : new.pseudo? p = some style')
    (h : Calls style style' d) : Calls old new (d.cappedFor p)

/-- The style's own part, or that of a pseudo-element in it. -/
inductive Part : ComputedStyle → OwnStyle → Prop
  | own (s : ComputedStyle) : Part s s.own
  | pseudo {s : ComputedStyle} {entry : PseudoElement × ComputedStyle} {own : OwnStyle}
    (hentry : entry ∈ s.pseudos) (h : Part entry.2 own) : Part s own

/-- The classes that the style of `p` calls for, before they are capped. -/
def PseudoCalls (old new : ComputedStyle) (p : PseudoElement) (d : Difference) : Prop :=
  (old.pseudo? p).isSome ≠ (new.pseudo? p).isSome ∧ d = .layout ∨
    ∃ style style', old.pseudo? p = some style ∧ new.pseudo? p = some style' ∧ style.Calls style' d

theorem calls_iff (old new : ComputedStyle) (d : Difference) :
    old.Calls new d ↔ old.own.Calls new.own d ∨
      ∃ p ∈ PseudoElement.all, ∃ e, old.PseudoCalls new p e ∧ e.cappedFor p = d := by
  constructor
  · rintro (hown | ⟨p, hexchanged⟩ | ⟨p, hold, hnew, hcalls⟩)
    · exact .inl hown
    · exact .inr ⟨p, p.mem_all, .layout, .inl ⟨hexchanged, rfl⟩, rfl⟩
    · exact .inr ⟨p, p.mem_all, _, .inr ⟨_, _, hold, hnew, hcalls⟩, rfl⟩
  · rintro (hown | ⟨p, -, e, ⟨hexchanged, rfl⟩ | ⟨style, style', hold, hnew, hcalls⟩, rfl⟩)
    · exact .own hown
    · exact .exchanged p hexchanged
    · exact .pseudo p hold hnew hcalls

theorem mem_of_pseudo? {s style : ComputedStyle} {p : PseudoElement}
    (h : s.pseudo? p = some style) : ∃ entry ∈ s.pseudos, entry.2 = style := by
  obtain ⟨entry, hentry, hstyle⟩ := Option.map_eq_some_iff.mp h
  exact ⟨entry, List.mem_of_find?_eq_some hentry, hstyle⟩

theorem pseudoDifference_eq (old new : ComputedStyle) (p : PseudoElement) :
    pseudoDifference new p old.pseudos =
      match old.pseudo? p, new.pseudo? p with
      | some style, some style' => style.difference style'
      | none, none => .equal
      | _, _ => .layout := by
  have hfind : old.pseudo? p = (old.pseudos.find? (·.1 = p)).map Prod.snd := rfl
  rw [hfind]
  induction old.pseudos with
  | nil =>
    rw [pseudoDifference]
    cases new.pseudo? p <;> rfl
  | cons entry pseudos ih =>
    rw [pseudoDifference, List.find?_cons]
    by_cases hp : entry.1 = p
    · rw [if_pos hp, decide_eq_true hp]
      cases new.pseudo? p <;> rfl
    · rw [if_neg hp, decide_eq_false hp]
      exact ih

theorem pseudo?_eq_of_plainForm {s s' : ComputedStyle} (h : s.plainForm = s'.plainForm)
    (p : PseudoElement) : (s.pseudo? p).map plainForm = (s'.pseudo? p).map plainForm := by
  have hfind (s : ComputedStyle) :
      (s.pseudo? p).map plainForm = (s.plainForm.pseudos.find? (·.1 = p)).map Prod.snd := by
    rw [pseudos_plainForm, List.find?_map, Option.map_map, pseudo?, Option.map_map]
    rfl
  rw [hfind, hfind, h]

/-- A change that does not show in the plain form calls for nothing, if no number in the style was
none. -/
theorem Numeric.difference_of_plainForm_eq {old new : ComputedStyle} (hold : old.Numeric)
    (h : old.plainForm = new.plainForm) : old.difference new = .equal := by
  induction hold generalizing new with
  | @node own pseudos hown _ ih =>
    have hbase : own.difference new.own = .equal :=
      OwnStyle.difference_of_plainForm_eq hown (own_eq_of_plainForm h)
    have hpseudo (p : PseudoElement) : pseudoDifference new p pseudos = .equal := by
      have hsame := pseudo?_eq_of_plainForm h p
      have heq := pseudoDifference_eq ⟨own, pseudos⟩ new p
      cases hstyle : pseudo? ⟨own, pseudos⟩ p with
      | none =>
        rw [hstyle, Option.map_none, eq_comm, Option.map_eq_none_iff] at hsame
        rwa [hstyle, hsame] at heq
      | some style =>
        rw [hstyle, Option.map_some, eq_comm] at hsame
        obtain ⟨style', hstyle', hplain⟩ := Option.map_eq_some_iff.mp hsame
        obtain ⟨entry, hentry, rfl⟩ := mem_of_pseudo? hstyle
        rw [hstyle, hstyle'] at heq
        exact heq.trans (ih entry hentry hplain.symm)
    simp only [difference, hbase, hpseudo, Difference.cappedFor_equal]
    decide

theorem isWorst_pseudoDifference {old new : ComputedStyle} {p : PseudoElement}
    (h : ∀ style style', old.pseudo? p = some style → new.pseudo? p = some style' →
      Difference.IsWorst (style.Calls style') (style.difference style')) :
    Difference.IsWorst (old.PseudoCalls new p) (pseudoDifference new p old.pseudos) := by
  rw [pseudoDifference_eq]
  cases hold : old.pseudo? p with
  | none =>
    cases hnew : new.pseudo? p with
    | none => exact ⟨.inl rfl, fun d hd => by simp [PseudoCalls, hold, hnew] at hd⟩
    | some style' =>
      exact (Difference.IsWorst.single .layout).congr fun d => by simp [PseudoCalls, hold, hnew]
  | some style =>
    cases hnew : new.pseudo? p with
    | none =>
      exact (Difference.IsWorst.single .layout).congr fun d => by simp [PseudoCalls, hold, hnew]
    | some style' =>
      exact (h style style' hold hnew).congr fun d => by simp [PseudoCalls, hold, hnew]

/-- The class of a change is the greatest that a part of it calls for, if no number in the styles
is none and groups that they share hold equal contents. -/
theorem difference_isWorst {old new : ComputedStyle} (hold : old.Numeric) (hnew : new.Numeric)
    (hshared : ∀ a b, old.Part a → new.Part b → a.SharesEqual b) :
    Difference.IsWorst (old.Calls new) (old.difference new) := by
  induction hold generalizing new with
  | @node own pseudos hown hpseudos ih =>
    cases hnew with
    | @node own' pseudos' hown' hpseudos' =>
      have hbase := OwnStyle.isWorst_difference (hshared own own' (.own _) (.own _)) hown'
      have hpseudo (p : PseudoElement) (_ : p ∈ PseudoElement.all) :
          Difference.IsWorst
            (fun d => ∃ e, PseudoCalls ⟨own, pseudos⟩ ⟨own', pseudos'⟩ p e ∧ e.cappedFor p = d)
            ((pseudoDifference ⟨own', pseudos'⟩ p pseudos).cappedFor p) := by
        refine (isWorst_pseudoDifference fun style style' hstyle hstyle' => ?_).cappedFor p
        obtain ⟨entry, hentry, rfl⟩ := mem_of_pseudo? hstyle
        obtain ⟨entry', hentry', rfl⟩ := mem_of_pseudo? hstyle'
        exact ih entry hentry (hpseudos' entry' hentry') fun a b ha hb =>
          hshared a b (.pseudo hentry ha) (.pseudo hentry' hb)
      have hworst := Difference.isWorst_foldl hbase hpseudo
      rw [difference]
      split_ifs with hblock
      · rw [hblock]
        refine ⟨.inr (.own ?_), fun d _ => Difference.le_containingBlockLayout d⟩
        exact (hblock ▸ hbase).called.resolve_left (by decide)
      · exact hworst.congr fun d => (calls_iff ⟨own, pseudos⟩ ⟨own', pseudos'⟩ d).symm

/-- The offset of a first line: it is called for as a move, and the cap makes it a repaint. -/
theorem difference_isWorst_firstLine :
    let plain := initial 0 16
    let moved : ComputedStyle :=
      ⟨(plain.own.set 1 (.box .position) .relative).set 2 (.frame (.offset .left)) (.fixed 4), []⟩
    let still : ComputedStyle := ⟨plain.own.set 1 (.box .position) .relative, []⟩
    let old : ComputedStyle := ⟨plain.own, [(.firstLine, still)]⟩
    let new : ComputedStyle := ⟨plain.own, [(.firstLine, moved)]⟩
    Difference.IsWorst (old.Calls new) (old.difference new) ∧ old.difference new = .visible := by
  intro plain moved still old new
  have hplain : plain.own.Numeric := by constructor <;> decide +kernel
  have hmoved : moved.own.Numeric := by constructor <;> decide +kernel
  have hstill : still.own.Numeric := by constructor <;> decide +kernel
  have hparts {own : OwnStyle} {style : ComputedStyle} (hstyle : style.pseudos = [])
      {part : OwnStyle} (hpart : Part ⟨own, [(.firstLine, style)]⟩ part) :
      part = own ∨ part = style.own := by
    cases hpart with
    | own => exact .inl rfl
    | pseudo hentry hpart =>
      obtain rfl := List.mem_singleton.mp hentry
      cases hpart with
      | own => exact .inr rfl
      | pseudo hentry hpart => simp [hstyle] at hentry
  refine ⟨difference_isWorst (.node hplain fun entry hentry => ?_)
    (.node hplain fun entry hentry => ?_) fun a b ha hb => ?_, by decide +kernel⟩
  · obtain rfl := List.mem_singleton.mp hentry
    exact .node hstill nofun
  · obtain rfl := List.mem_singleton.mp hentry
    exact .node hmoved nofun
  · rcases hparts rfl ha with rfl | rfl <;> rcases hparts rfl hb with rfl | rfl <;>
      constructor <;> intro h <;> first | rfl | exact absurd h (by decide +kernel)

end ComputedStyle

end StyleEngine
