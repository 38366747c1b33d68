import StyleEngine.Proofs.Computation.Apply

/-!
# Adjusted styles

Adjusting runs in a fixed order: the position decides the float, the float decides the display, the
display decides the position again, and that decides the level. What comes out satisfies all the
constraints at once, so adjusting it again only forgets the display as it was.

Overflow is settled last. Both axes are visible or none is, but a table whose other axis is hidden
gets an `auto` back that the rule for tables has taken away before.

## Main definitions

* `BoxKeywords.FlowSettled`, `BoxKeywords.OverflowSettled`: what the keywords of a box agree in.
* `OwnStyle.Adjusted`: a style whose values agree.

## Main statements

* `OwnStyle.adjusted_adjust`, `OwnStyle.Adjusted.adjust_eq`: adjusting makes values agree, and leaves
  them alone where they do.
* `StyleContext.overflow_apply`: the overflow of what declarations come to.
-/

namespace StyleEngine

namespace Display

@[simp] theorem blockified_blockified (d : Display) :
    d.blockified.blockified = d.blockified := by
  cases d <;> rfl

@[simp] theorem blockified_eq_none_iff (d : Display) :
    d.blockified = none ↔ d = none := by
  cases d <;> decide

@[simp] theorem isRowLike_blockified (d : Display) : d.blockified.isRowLike = false := by
  cases d <;> rfl

theorem blockified_mem {d : Display} (h : d ≠ none) :
    d.blockified ∈ [block, listItem, table] := by
  cases d <;> first | decide | exact absurd rfl h

theorem blockified_of_mem {d : Display} (h : d ∈ [block, listItem, table]) :
    d.blockified = d := by
  have hcases : d = block ∨ d = listItem ∨ d = table := by simpa using h
  rcases hcases with rfl | rfl | rfl <;> rfl

end Display

namespace DecorationLines

@[simp] theorem union_union_self (a b : DecorationLines) : (a.union b).union b = a.union b := by
  simp [union]

end DecorationLines

namespace BoxKeywords

/-! ## Display, float and position -/

/-- The box is the root, floats, or is out of flow. -/
def standsAlone (isRoot : Bool) (k : BoxKeywords) : Bool :=
  isRoot || k.position.isOutOfFlow || k.float != .none

/-- What the display, the float and the position of a box agree in. -/
structure FlowSettled (isRoot : Bool) (k : BoxKeywords) : Prop where
  /-- Rows and groups of rows are not relative. -/
  row : k.display.isRowLike = true → k.position ≠ .relative
  /-- A box that stands on its own is displayed as one that can. -/
  block : k.display ≠ .none → k.standsAlone isRoot = true →
    k.display ∈ [.block, .listItem, .table]
  /-- A box out of flow does not float. -/
  float : k.display ≠ .none → k.position.isOutOfFlow = true → k.float = .none
  display : k.display = k.unadjustedDisplay ∨ k.display = k.unadjustedDisplay.blockified
  kept : k.standsAlone isRoot = false → k.display = k.unadjustedDisplay

variable {isRoot : Bool} {k : BoxKeywords}

section Steps

@[simp] theorem display_dropFloat (k : BoxKeywords) : k.dropFloat.display = k.display := by
  grind [dropFloat]

@[simp] theorem position_dropFloat (k : BoxKeywords) : k.dropFloat.position = k.position := by
  grind [dropFloat]

@[simp] theorem unadjustedDisplay_dropFloat (k : BoxKeywords) :
    k.dropFloat.unadjustedDisplay = k.unadjustedDisplay := by
  grind [dropFloat]

theorem float_dropFloat (h : k.position.isOutOfFlow = true) : k.dropFloat.float = .none := by
  simp [dropFloat, h]

theorem dropFloat_eq_self (h : k.position.isOutOfFlow = true → k.float = .none) :
    k.dropFloat = k := by
  unfold dropFloat
  split
  · next hout => rw [← h hout]
  · rfl

theorem blockify_eq (isRoot : Bool) (k : BoxKeywords) :
    k.blockify isRoot =
      if k.standsAlone isRoot then { k with display := k.display.blockified } else k :=
  rfl

@[simp] theorem standsAlone_holdRows (isRoot : Bool) (k : BoxKeywords) :
    k.holdRows.standsAlone isRoot = k.standsAlone isRoot := by
  grind [holdRows, standsAlone, Position.isOutOfFlow]

@[simp] theorem display_holdRows (k : BoxKeywords) : k.holdRows.display = k.display := by
  grind [holdRows]

@[simp] theorem unadjustedDisplay_holdRows (k : BoxKeywords) :
    k.holdRows.unadjustedDisplay = k.unadjustedDisplay := by
  grind [holdRows]

@[simp] theorem float_holdRows (k : BoxKeywords) : k.holdRows.float = k.float := by
  grind [holdRows]

@[simp] theorem isOutOfFlow_holdRows (k : BoxKeywords) :
    k.holdRows.position.isOutOfFlow = k.position.isOutOfFlow := by
  grind [holdRows, Position.isOutOfFlow]

theorem position_holdRows (h : k.display.isRowLike = true) : k.holdRows.position ≠ .relative := by
  grind [holdRows]

theorem holdRows_eq_self (h : k.display.isRowLike = true → k.position ≠ .relative) :
    k.holdRows = k := by
  grind [holdRows]

@[simp] theorem overflowX_settleFlow (isRoot : Bool) (k : BoxKeywords) :
    (k.settleFlow isRoot).overflowX = k.overflowX := by
  grind [settleFlow, holdRows, blockify, dropFloat]

@[simp] theorem overflowY_settleFlow (isRoot : Bool) (k : BoxKeywords) :
    (k.settleFlow isRoot).overflowY = k.overflowY := by
  grind [settleFlow, holdRows, blockify, dropFloat]

/-- Holding rows settles a flow that is settled but for them. -/
theorem flowSettled_holdRows
    (block : k.display ≠ .none → k.standsAlone isRoot = true →
      k.display ∈ [.block, .listItem, .table])
    (float : k.display ≠ .none → k.position.isOutOfFlow = true → k.float = .none)
    (display : k.display = k.unadjustedDisplay ∨ k.display = k.unadjustedDisplay.blockified)
    (kept : k.standsAlone isRoot = false → k.display = k.unadjustedDisplay) :
    k.holdRows.FlowSettled isRoot where
  row h := position_holdRows (by simpa using h)
  block := by simpa using block
  float := by simpa using float
  display := by simpa using display
  kept := by simpa using kept

end Steps

/-- The flow is settled, whatever it was. -/
theorem flowSettled_settleFlow (isRoot : Bool) (k : BoxKeywords) :
    (k.settleFlow isRoot).FlowSettled isRoot := by
  unfold settleFlow
  by_cases hnone : k.display = .none
  · simp only [hnone, if_true]
    exact flowSettled_holdRows (by simp) (by simp) (.inl rfl) fun _ => rfl
  · -- The display is looked at last, when position and float are as they stay.
    simp only [hnone, if_false, blockify_eq]
    generalize hk : dropFloat _ = dropped
    have hdisplay : dropped.display = k.display := by simp [← hk]
    have hunadjusted : dropped.unadjustedDisplay = k.display := by simp [← hk]
    have hfloat (h : dropped.position.isOutOfFlow = true) : dropped.float = .none := by
      subst hk
      exact float_dropFloat (by simpa using h)
    split
    · next halone =>
      refine flowSettled_holdRows (fun h _ => ?_) (fun _ => hfloat) (.inr ?_) fun h => ?_
      · exact Display.blockified_mem (by simpa using h)
      · simp [hdisplay, hunadjusted]
      · exact absurd (halone.symm.trans h) (by decide)
    · next halone =>
      refine flowSettled_holdRows (fun _ h => absurd h halone) (fun _ => hfloat) (.inl ?_) fun _ => ?_
      · rw [hdisplay, hunadjusted]
      · rw [hdisplay, hunadjusted]

/-- A settled flow is left alone, and its display is taken for the unadjusted one. -/
theorem FlowSettled.settleFlow_eq (h : k.FlowSettled isRoot) :
    k.settleFlow isRoot = { k with unadjustedDisplay := k.display } := by
  have hheld : { k with unadjustedDisplay := k.display }.holdRows =
      { k with unadjustedDisplay := k.display } := holdRows_eq_self h.row
  unfold settleFlow
  by_cases hnone : k.display = .none
  · simpa only [hnone, if_true] using hheld
  · have hdropped : { k with unadjustedDisplay := k.display }.dropFloat =
        { k with unadjustedDisplay := k.display } := dropFloat_eq_self (h.float hnone)
    simp only [hnone, if_false, hdropped, blockify_eq]
    split
    · next halone =>
      rw [Display.blockified_of_mem (h.block hnone halone)]
      exact hheld
    · exact hheld

/-! ## Overflow -/

/-- What the axes of overflow and the display of a box agree in. -/
structure OverflowSettled (k : BoxKeywords) : Prop where
  visible : k.overflowX = .visible ↔ k.overflowY = .visible
  /-- The axes of a table are alike, or one is hidden and the other `auto`. -/
  table : k.display.isTable = true → (k.overflowX, k.overflowY) ∈
    [(.visible, .visible), (.hidden, .hidden), (.auto, .hidden), (.hidden, .auto)]

section Overflow

@[simp] theorem display_settleOverflow (k : BoxKeywords) :
    k.settleOverflow.display = k.display := by
  grind [settleOverflow, pairOverflow]

@[simp] theorem unadjustedDisplay_settleOverflow (k : BoxKeywords) :
    k.settleOverflow.unadjustedDisplay = k.unadjustedDisplay := by
  grind [settleOverflow, pairOverflow]

@[simp] theorem position_settleOverflow (k : BoxKeywords) :
    k.settleOverflow.position = k.position := by
  grind [settleOverflow, pairOverflow]

@[simp] theorem float_settleOverflow (k : BoxKeywords) : k.settleOverflow.float = k.float := by
  grind [settleOverflow, pairOverflow]

@[simp] theorem isIsolated_settleOverflow (k : BoxKeywords) :
    k.settleOverflow.isIsolated = k.isIsolated := by
  simp [isIsolated]

theorem FlowSettled.settleOverflow (h : k.FlowSettled isRoot) :
    k.settleOverflow.FlowSettled isRoot where
  row := by simpa using h.row
  block := by simpa [standsAlone] using h.block
  float := by simpa using h.float
  display := by simpa using h.display
  kept := by simpa [standsAlone] using h.kept

/-- Both axes are visible, or none is. -/
theorem overflow_eq_visible_iff (k : BoxKeywords) :
    k.settleOverflow.overflowX = .visible ↔ k.settleOverflow.overflowY = .visible := by
  grind [settleOverflow, pairOverflow]

/-- Of the axes of a table, only what is hidden is left, and what is put beside it. -/
theorem overflow_settleOverflow (h : k.display.isTable = true) :
    (k.settleOverflow.overflowX, k.settleOverflow.overflowY) =
      if k.overflowX = .hidden then
        if k.overflowY = .hidden then (.hidden, .hidden) else (.hidden, .auto)
      else if k.overflowY = .hidden then (.auto, .hidden) else (.visible, .visible) := by
  simp only [settleOverflow, pairOverflow, dropScroll, h, if_true]
  cases k.overflowX <;> cases k.overflowY <;> rfl

theorem overflowSettled_settleOverflow (k : BoxKeywords) : k.settleOverflow.OverflowSettled where
  visible := k.overflow_eq_visible_iff
  table h := by
    rw [overflow_settleOverflow (by simpa using h)]
    split_ifs <;> decide

/-- Axes that are settled are left alone. -/
theorem OverflowSettled.settleOverflow_eq (h : k.OverflowSettled) : k.settleOverflow = k := by
  have hpair : k.pairOverflow = k := by grind [pairOverflow, h.visible]
  unfold settleOverflow dropScroll
  cases htable : k.display.isTable with
  | false => simpa using hpair
  | true =>
    -- The rule for tables makes an axis visible, and the rule for pairs brings it back.
    obtain ⟨display, unadjusted, position, float, clear, x, y, layout, type⟩ := k
    have haxes := h.table htable
    simp only [List.mem_cons, Prod.mk.injEq, List.not_mem_nil, or_false] at haxes
    rcases haxes with ⟨rfl, rfl⟩ | ⟨rfl, rfl⟩ | ⟨rfl, rfl⟩ | ⟨rfl, rfl⟩ <;> rfl

end Overflow

end BoxKeywords

/-! ## Whole styles -/

namespace OwnStyle

/-- A style whose values agree as they have to, where `isRoot` says whether it is for the root. -/
structure Adjusted (isRoot : Bool) (s : OwnStyle) : Prop where
  flow : s.box.FlowSettled isRoot
  /-- A box that is not positioned has no level. -/
  level : s.box.position = .static → s.sizing.value.zIndex = none
  /-- The lines in effect are those of the element, and others only where they are passed on. -/
  lines : (if s.box.isIsolated then s.visual.value.textDecoration
    else s.inherited.decorationsInEffect.union s.visual.value.textDecoration) =
      s.inherited.decorationsInEffect
  overflow : s.box.OverflowSettled

variable {isRoot : Bool} {s : OwnStyle}

section Steps

theorem dropLevel_cases (stamp : Stamp) (s : OwnStyle) :
    s.dropLevel stamp = s ∨ s.dropLevel stamp =
      { s with sizing := .write stamp { s.sizing.value with zIndex := none } } := by
  unfold dropLevel
  split
  · rw [set]
    split
    · exact .inl rfl
    · exact .inr rfl
  · exact .inl rfl

@[simp] theorem box_dropLevel (stamp : Stamp) (s : OwnStyle) :
    (s.dropLevel stamp).box = s.box := by
  rcases s.dropLevel_cases stamp with h | h <;> rw [h]

@[simp] theorem visual_dropLevel (stamp : Stamp) (s : OwnStyle) :
    (s.dropLevel stamp).visual = s.visual := by
  rcases s.dropLevel_cases stamp with h | h <;> rw [h]

theorem zIndex_dropLevel (stamp : Stamp) (h : s.box.position = .static) :
    (s.dropLevel stamp).sizing.value.zIndex = none := by
  rw [dropLevel, if_pos h, set]
  split
  · next hnone => exact eq_of_beq hnone
  · rfl

theorem dropLevel_eq_self (stamp : Stamp)
    (h : s.box.position = .static → s.sizing.value.zIndex = none) : s.dropLevel stamp = s := by
  unfold dropLevel
  split
  · next hstatic =>
    have hnone : (s.sizing.value.get .zIndex == none) = true := beq_iff_eq.mpr (h hstatic)
    rw [set, if_pos hnone]
  · rfl

@[simp] theorem box_adjust (stamp : Stamp) (isRoot : Bool) (s : OwnStyle) :
    (s.adjust stamp isRoot).box = (s.box.settleFlow isRoot).settleOverflow := by
  simp [adjust, passDecorations]

theorem sizing_adjust (stamp : Stamp) (isRoot : Bool) (s : OwnStyle) :
    (s.adjust stamp isRoot).sizing =
      ({ s with box := s.box.settleFlow isRoot }.dropLevel stamp).sizing := by
  simp only [adjust, passDecorations]

end Steps

/-- Adjusting makes all values agree. -/
theorem adjusted_adjust (stamp : Stamp) (isRoot : Bool) (s : OwnStyle) :
    (s.adjust stamp isRoot).Adjusted isRoot where
  flow := by
    rw [box_adjust]
    exact (BoxKeywords.flowSettled_settleFlow isRoot s.box).settleOverflow
  level h := by
    rw [sizing_adjust]
    exact zIndex_dropLevel stamp (by simpa using h)
  lines := by
    simp only [adjust, passDecorations, box_dropLevel, BoxKeywords.isIsolated_settleOverflow]
    split_ifs
    · rfl
    · exact DecorationLines.union_union_self _ _
  overflow := by
    rw [box_adjust]
    exact BoxKeywords.overflowSettled_settleOverflow _

/-- Values that agree are left alone. Only the unadjusted display is taken anew. -/
theorem Adjusted.adjust_eq (h : s.Adjusted isRoot) (stamp : Stamp) :
    s.adjust stamp isRoot = { s with box.unadjustedDisplay := s.box.display } := by
  have hlevel : { s with box.unadjustedDisplay := s.box.display }.dropLevel stamp =
      { s with box.unadjustedDisplay := s.box.display } := dropLevel_eq_self stamp h.level
  have hlines : { s with box.unadjustedDisplay := s.box.display }.passDecorations =
      { s with box.unadjustedDisplay := s.box.display } :=
    congrArg (fun lines => { s with
      box.unadjustedDisplay := s.box.display
      inherited.decorationsInEffect := lines }) h.lines
  have hoverflow : { s.box with unadjustedDisplay := s.box.display }.OverflowSettled :=
    ⟨h.overflow.visible, h.overflow.table⟩
  rw [adjust]
  simp only [h.flow.settleFlow_eq, hlevel, hlines, hoverflow.settleOverflow_eq]

/-- Adjusting reads nothing that the plain form does not show. -/
theorem Adjusted.of_plainForm {s' : OwnStyle} (h : s.Adjusted isRoot)
    (hplain : s'.plainForm = s.plainForm) : s'.Adjusted isRoot := by
  have hbox := box_eq_of_plainForm hplain
  have hlevel : s'.sizing.value.zIndex = s.sizing.value.zIndex :=
    congrArg (·.sizing.value.zIndex) hplain
  have hlines := textDecoration_eq_of_plainForm hplain
  refine ⟨hbox ▸ h.flow, ?_, ?_, hbox ▸ h.overflow⟩
  · rw [hbox, hlevel]
    exact h.level
  · rw [hbox, inherited_eq_of_plainForm hplain, hlines]
    exact h.lines

end OwnStyle

/-! ## What declarations come to -/

namespace StyleContext

variable {c : StyleContext} {stamp : Stamp} {ds : List Declaration}

/-- Whatever is applied, the style is adjusted. -/
theorem adjusted_apply {s : ComputedStyle} (h : c.apply stamp ds = .ok s) :
    s.own.Adjusted c.isRoot := by
  obtain ⟨own, -, rfl⟩ := exists_of_apply h
  exact OwnStyle.adjusted_adjust stamp c.isRoot own

/-- Declarations that fit come to a style in which both axes of overflow are visible or none is. A
table does not scroll, but an axis is `auto` where the other one, and not this one, was hidden before
the style was adjusted. -/
theorem overflow_apply (c : StyleContext) (stamp : Stamp) (h : ∀ d ∈ ds, d.Fits) :
    ∃ own s, c.assigned stamp ds = .ok own ∧ c.apply stamp ds = .ok s ∧
      (s.own.box.overflowX = .visible ↔ s.own.box.overflowY = .visible) ∧
      (s.display.isTable = true →
        s.own.box.overflowX ≠ .scroll ∧ s.own.box.overflowY ≠ .scroll ∧
        (s.own.box.overflowX = .auto ↔
          own.box.overflowX ≠ .hidden ∧ own.box.overflowY = .hidden) ∧
        (s.own.box.overflowY = .auto ↔
          own.box.overflowY ≠ .hidden ∧ own.box.overflowX = .hidden)) := by
  obtain ⟨s, hs⟩ := exists_apply h c stamp
  obtain ⟨own, hassigned, rfl⟩ := exists_of_apply hs
  refine ⟨own, _, hassigned, hs, ?_, fun htable => ?_⟩
  · simpa using BoxKeywords.overflow_eq_visible_iff _
  · have htable : (own.box.settleFlow c.isRoot).display.isTable = true := by
      simpa [ComputedStyle.display] using htable
    have haxes := BoxKeywords.overflow_settleOverflow htable
    simp only [BoxKeywords.overflowX_settleFlow, BoxKeywords.overflowY_settleFlow] at haxes
    simp only [OwnStyle.box_adjust]
    grind

/-- An inline table at the root, with a scrolling axis. -/
theorem overflow_apply_inlineTable :
    let c : StyleContext := ⟨.initial 0 16, .default, .approximate, none, none, true, 16⟩
    let ds : List Declaration :=
      [⟨.known .display, .display .inlineTable, false⟩,
        ⟨.known .overflowX, .overflow .scroll, false⟩]
    ∃ own s, c.assigned 1 ds = .ok own ∧ c.apply 1 ds = .ok s ∧
      (s.own.box.overflowX = .visible ↔ s.own.box.overflowY = .visible) ∧
      (s.display.isTable = true →
        s.own.box.overflowX ≠ .scroll ∧ s.own.box.overflowY ≠ .scroll ∧
        (s.own.box.overflowX = .auto ↔
          own.box.overflowX ≠ .hidden ∧ own.box.overflowY = .hidden) ∧
        (s.own.box.overflowY = .auto ↔
          own.box.overflowY ≠ .hidden ∧ own.box.overflowX = .hidden)) := by
  intro c ds
  refine overflow_apply c 1 fun d hd => ?_
  rcases List.mem_pair.mp hd with rfl | rfl <;> exact Declaration.fits_of_root rfl

/-- A table that is hidden on one axis only gets an `auto` on the other. -/
theorem apply_table_auto :
    let c : StyleContext := ⟨.initial 0 16, .default, .approximate, none, none, true, 16⟩
    let ds : List Declaration :=
      [⟨.known .display, .display .table, false⟩, ⟨.known .overflowX, .overflow .hidden, false⟩]
    (∀ d ∈ ds, d.Fits) ∧ ∃ s, c.apply 1 ds = .ok s ∧ s.display = .table ∧
      s.own.box.overflowX = .hidden ∧ s.own.box.overflowY = .auto := by
  intro c ds
  have hfits : ∀ d ∈ ds, d.Fits := by
    intro d hd
    rcases List.mem_pair.mp hd with rfl | rfl <;> exact Declaration.fits_of_root rfl
  obtain ⟨s, hs⟩ := exists_apply hfits c 1
  have hseen : (c.apply 1 ds).map
      (fun s => (s.display, s.own.box.overflowX, s.own.box.overflowY)) =
        .ok (.table, .hidden, .auto) := by
    decide +kernel
  rw [hs] at hseen
  obtain ⟨hdisplay, haxes⟩ := Prod.mk.inj (Except.ok.inj hseen)
  obtain ⟨hx, hy⟩ := Prod.mk.inj haxes
  exact ⟨hfits, s, hs, hdisplay, hx, hy⟩

end StyleContext

end StyleEngine
