import StyleEngine.Proofs.Computation.Length
import StyleEngine.Proofs.Pass.Restyle
import StyleEngine.Proofs.Pass.Stock

/-!
# Least font sizes

A font size enters a style through a declaration, from the parent, or from the initial style. The
settings bound the first way alone: what is declared comes to no less than the least size, but the
default size is taken as it is. So a font that is smaller than the least size has the default one.

## Main definitions

* `Settings.Admits`: the font sizes that styles can have.

## Main statements

* `Styler.Reachable.admits_fontSize`: stored styles have no other font sizes.
* `Styler.restyle_smallFont`: a default size below the least one is stored.
-/

namespace StyleEngine

/-! ## Comparisons of numbers -/

section Comparison

open Float.Model (UnpackedFloat)

/-- Two numbers compare, and the other way round with the opposite result. -/
theorem exists_compare {u v : UnpackedFloat} (hu : u.isNaN = false) (hv : v.isNaN = false) :
    ∃ o : Ordering, u.compare v = some o ∧ v.compare u = some o.swap := by
  have hswap (m m' : Nat) (e e' : Int) : (compare e' e).then (compare m' m) =
      ((compare e e').then (compare m m')).swap := by
    rw [Ordering.swap_then, ← Std.OrientedCmp.eq_swap, ← Std.OrientedCmp.eq_swap]
  cases u with
  | notANumber => cases hu
  | infinity s =>
    cases v with
    | notANumber => cases hv
    | infinity t => cases s <;> cases t <;> exact ⟨_, rfl, rfl⟩
    | zero | finite => cases s <;> exact ⟨_, rfl, rfl⟩
  | zero s =>
    cases v with
    | notANumber => cases hv
    | zero => exact ⟨_, rfl, rfl⟩
    | infinity t | finite t => cases t <;> exact ⟨_, rfl, rfl⟩
  | finite s m e =>
    cases v with
    | notANumber => cases hv
    | infinity t => cases t <;> exact ⟨_, rfl, rfl⟩
    | zero => cases s <;> exact ⟨_, rfl, rfl⟩
    | finite t m' e' =>
      cases s <;> cases t
      case positive.positive => exact ⟨_, rfl, congrArg some (hswap m m' e e')⟩
      case negative.negative =>
        exact ⟨_, rfl, congrArg (some ∘ Ordering.swap) (hswap m m' e e')⟩
      all_goals exact ⟨_, rfl, rfl⟩

variable {x y : Float32}

theorem le_iff_compare :
    x ≤ y ↔ (x.toModel.unpack.compare y.toModel.unpack).any Ordering.isLE = true := by
  change decide (_ = true) = true ↔ _
  exact decide_eq_true_iff

theorem lt_iff_compare : x < y ↔ x.toModel.unpack.compare y.toModel.unpack = some .lt := by
  change decide ((_ == some Ordering.lt) = true) = true ↔ _
  exact decide_eq_true_iff.trans beq_iff_eq

theorem le_of_lt_px (h : x < y) : x ≤ y := by
  rw [le_iff_compare, lt_iff_compare.mp h]
  rfl

/-- Of two numbers, the first is at most the second, or greater. -/
theorem le_or_lt_px (hx : x.isNaN = false) (hy : y.isNaN = false) : x ≤ y ∨ y < x := by
  obtain ⟨o, hcompare, hcompare'⟩ :=
    exists_compare (u := x.toModel.unpack) (v := y.toModel.unpack) hx hy
  rw [le_iff_compare, lt_iff_compare, hcompare, hcompare']
  cases o <;> decide

/-- The greater of two numbers is at least the second. -/
theorem le_maxPx_right (hy : y.isNaN = false) : y ≤ maxPx x y := by
  have hself : y ≤ y := by
    rcases le_or_lt_px hy hy with h | h
    · exact h
    · exact le_of_lt_px h
  unfold maxPx
  rw [hy, if_neg Bool.false_ne_true]
  split
  · exact hself
  · split
    · next h => exact le_of_lt_px h
    · exact hself

theorem isNaN_eq_false_of_isFinite (h : x.isFinite = true) : x.isNaN = false := by
  change x.toModel.unpack.isFinite = true at h
  change x.toModel.unpack.isNaN = false
  cases hx : x.toModel.unpack with
  | notANumber =>
    rw [hx] at h
    cases h
  | _ => rfl

end Comparison

/-! ## Sizes that enter a style -/

/-- The font sizes that styles can have: those from the least one on, and the default one. -/
def Settings.Admits (s : Settings) (size : Float32) : Prop :=
  s.minimumFontSize ≤ size ∨ s.defaultFontSize < s.minimumFontSize ∧ size = s.defaultFontSize

theorem Settings.admits_clampFontSize {s : Settings} (h : s.minimumFontSize.isNaN = false)
    (size : Float32) : s.Admits (s.clampFontSize size) :=
  .inl (le_maxPx_right h)

theorem Settings.admits_default {s : Settings} (h : s.minimumFontSize.isNaN = false)
    (hdefault : s.defaultFontSize.isNaN = false) : s.Admits s.defaultFontSize :=
  (le_or_lt_px h hdefault).imp_right fun hlt => ⟨hlt, rfl⟩

namespace StyleContext

variable {c : StyleContext} {stamp : Stamp} {scale : LengthScale}

/-- The context inherits and starts from admitted font sizes. -/
structure Admitted (c : StyleContext) : Prop where
  minimum : c.settings.minimumFontSize.isNaN = false
  inherited : c.settings.Admits c.inherited.own.typography.value.font.size
  initial : c.settings.Admits c.initial.own.typography.value.font.size

/-- What is assigned as a font size is inherited, initial or clamped. -/
theorem Admitted.of_assignments (hc : c.Admitted) {d : Declaration} {l : List Assignment}
    {size : Float32} (hl : c.assignments scale d = .ok l)
    (hsize : ⟨.typography .fontSize, size⟩ ∈ l) : c.settings.Admits size := by
  have hfield : .typography .fontSize ∈ d.property.fields := by
    rw [← map_field_assignments hl]
    exact List.mem_map_of_mem hsize
  obtain ⟨property, value, important⟩ := d
  cases property with
  | unknown code => cases hfield
  | known p =>
    obtain rfl : .fontSize = p := Option.some.inj (Field.mem_fields_iff.mp hfield)
    have hfrom {s : OwnStyle} (hs : c.settings.Admits s.typography.value.font.size)
        (hmem : ⟨.typography .fontSize, size⟩ ∈ Property.fontSize.assignmentsFrom s) :
        c.settings.Admits size := by
      rcases List.mem_pair.mp hmem with heq | heq
      · cases heq
      · cases heq
        exact hs
    rcases assignments_cases value with rfl | rfl | hcases
    · obtain rfl := Except.ok.inj hl
      exact hfrom hc.inherited hsize
    · obtain rfl := Except.ok.inj hl
      exact hfrom hc.initial hsize
    · rw [hcases] at hl
      cases hpx : value.fontSize? c.settings.defaultFontSize scale with
      | none =>
        rw [Property.compute?, hpx] at hl
        cases hl
      | some px =>
        rw [Property.compute?, hpx] at hl
        obtain rfl := Except.ok.inj hl
        rcases List.mem_pair.mp hsize with heq | heq
        · cases heq
        · cases heq
          exact Settings.admits_clampFontSize hc.minimum px

/-- A write to a style leaves its font size alone, or writes it. -/
theorem fontSize_assign (stamp : Stamp) (s : OwnStyle) (a : Assignment) :
    (s.assign stamp a).typography.value.font.size = s.typography.value.font.size ∨
      a = ⟨.typography .fontSize, (s.assign stamp a).typography.value.font.size⟩ := by
  obtain ⟨f, v⟩ := a
  by_cases hf : .typography .fontSize = f
  · subst hf
    change Float32 at v
    have hset : s.assign stamp ⟨.typography .fontSize, v⟩ =
        if s.typography.value.font.size == v then s
        else { s with typography := .write stamp (s.typography.value.set .fontSize v) } := rfl
    rw [hset]
    split
    · exact .inl rfl
    · exact .inr rfl
  · exact .inl (OwnStyle.get_set_of_ne stamp s v hf)

/-- A style is started with the font that is inherited. -/
theorem typography_fresh (c : StyleContext) :
    c.fresh.own.typography = c.inherited.own.typography := by
  unfold fresh inherited
  cases c.pseudo <;> cases c.parent <;> rfl

/-- Declarations come to a font size that is admitted. -/
theorem Admitted.apply (hc : c.Admitted) {ds : List Declaration} {s : ComputedStyle}
    (h : c.apply stamp ds = .ok s) : c.settings.Admits s.own.typography.value.font.size := by
  have hfresh : c.settings.Admits c.fresh.own.typography.value.font.size := by
    rw [typography_fresh]
    exact hc.inherited
  obtain ⟨own, hown, rfl⟩ := exists_of_apply h
  have hadjust : (own.adjust stamp c.isRoot).typography.value.font.size =
      own.typography.value.font.size :=
    OwnStyle.get_adjust (f := .typography .fontSize) stamp c.isRoot own rfl
  change c.settings.Admits (own.adjust stamp c.isRoot).typography.value.font.size
  rw [hadjust]
  refine assigned_induction (P := fun own => c.settings.Admits own.typography.value.font.size)
    (fun scale d _ l hl a ha s hs => ?_) hfresh hown
  rcases fontSize_assign stamp s a with heq | heq
  · rw [heq]
    exact hs
  · exact hc.of_assignments hl (heq ▸ ha)

end StyleContext

/-! ## The stock of styles -/

/-- A stock whose fonts, those of pseudo-elements included, have sizes that are admitted. -/
def Settings.AdmitsFonts (s : Settings) (L : Set ComputedStyle) : Prop :=
  ∀ own, partsIn L own → s.Admits own.typography.value.font.size

theorem Settings.AdmitsFonts.insert {settings : Settings} {L : Set ComputedStyle}
    (h : settings.AdmitsFonts L) {s : ComputedStyle}
    (hs : ∀ own, s.Part own → partsIn L own ∨ settings.Admits own.typography.value.font.size) :
    settings.AdmitsFonts (insert s L) := by
  rintro own ⟨s', rfl | hs', hpart⟩
  · exact (hs own hpart).elim (h own) id
  · exact h own ⟨s', hs', hpart⟩

/-- Styles are made with admitted font sizes out of such styles. -/
theorem stockLaw_admitsFonts {settings : Settings} (initial : ComputedStyle)
    (hminimum : settings.minimumFontSize.isNaN = false) :
    StockLaw settings initial fun L _ => settings.AdmitsFonts L where
  apply {L n c ds s} hgood hsettings hinitial hmem hparent happly := by
    have hown {p : ComputedStyle} (hp : p ∈ L) :
        c.settings.Admits p.own.typography.value.font.size :=
      hsettings ▸ hgood _ ⟨p, hp, .own p⟩
    have hc : c.Admitted := by
      refine ⟨hsettings ▸ hminimum, ?_, hown (hinitial ▸ hmem)⟩
      unfold StyleContext.inherited
      cases hp : c.parent with
      | none => exact hown (hinitial ▸ hmem)
      | some p => exact hown (hparent p hp)
    refine hgood.insert fun own hpart => ?_
    rcases ComputedStyle.part_of_pseudos_eq (StyleContext.pseudos_apply happly) hpart with
      rfl | hpart
    · exact .inr (hsettings ▸ hc.apply happly)
    · exact .inl ⟨c.initial, hinitial ▸ hmem, hpart⟩
  attach {L n s style s'} hgood hs hstyle hattach := by
    refine hgood.insert fun own hpart => .inl ?_
    rcases ComputedStyle.part_of_attach hattach hpart with hpart | hpart
    · exact ⟨s, hs, hpart⟩
    · exact ⟨style, hstyle, hpart⟩
  compactWith {L n s similar} hgood hs hsimilar := by
    refine hgood.insert fun own hpart => ?_
    have hpseudos : (s.compactWith similar).pseudos = s.pseudos := rfl
    rcases ComputedStyle.part_of_pseudos_eq hpseudos hpart with rfl | hpart
    · -- Whichever of the two the typography is taken from, its font is in the stock.
      right
      change settings.Admits (s.own.typography.adopt similar.own.typography).value.font.size
      unfold Shared.adopt
      split
      · exact hgood _ ⟨similar, hsimilar, .own similar⟩
      · exact hgood _ ⟨s, hs, .own s⟩
    · exact .inl ⟨s, hs, hpart⟩

/-- Whatever calls a styler has gone through, each style that it stores, and each pseudo-element of
it, has a font of at least the least size, or else one of the default size where the default size is
below the least one. -/
theorem Styler.Reachable.admits_fontSize {settings : Settings} {metrics : FontMetrics}
    {set : SheetSet} {m : Medium} {s : Styler} (hs : Reachable settings metrics set m s)
    (hdefault : settings.defaultFontSize.isFinite = true)
    (hminimum : settings.minimumFontSize.isFinite = true) {key : ElementKey}
    {style : ComputedStyle} (hstored : s.styles[key]? = some style) {own : OwnStyle}
    (hpart : style.Part own) :
    settings.minimumFontSize ≤ own.typography.value.font.size ∨
      settings.defaultFontSize < settings.minimumFontSize ∧
        own.typography.value.font.size = settings.defaultFontSize := by
  have hdefault := isNaN_eq_false_of_isFinite hdefault
  have hminimum := isNaN_eq_false_of_isFinite hminimum
  have hstart : settings.AdmitsFonts {.initial 0 settings.defaultFontSize} := by
    rintro own ⟨s, rfl, hpart⟩
    rcases ComputedStyle.part_iff.mp hpart with rfl | ⟨entry, hentry, -⟩
    · exact Settings.admits_default hminimum hdefault
    · cases hentry
  obtain ⟨L, hL⟩ := (stockLaw_admitsFonts _ hminimum).exists_stock hstart hs
  exact hL.good own ⟨style, hL.stored_mem hstored, hpart⟩

/-- A pass over the root stores a style for it that has the naive font size. -/
theorem Styler.Reachable.exists_restyle_fontSize {settings : Settings} {set : SheetSet} {m : Medium}
    {s : Styler} (hs : Reachable settings .approximate set m s) (hcount : set.Countable m)
    (hset : set.Fitting m) {t : StyledTree ε} {root : ε} (ht : t.Rooted root)
    (hfits : t.Fitting root) :
    ∃ s' r top top', s.restyle t root = .ok (s', r) ∧ s'.styles[t.key root]? = some top ∧
      (set.naivePass m settings .approximate t).style root = .ok top' ∧
      plainZero top.fontSize = plainZero top'.fontSize := by
  obtain ⟨s', r, hrun, hsettled⟩ := PassInput.exists_restyle_root
    (i := ⟨settings, .approximate, .build set m, s.digest, t⟩) ht FontMetrics.fair_approximate
    (fun _ he => PassInput.fits_naive_build hset hfits he) hs.resting
  obtain ⟨top, top', hstored, hnaive, hplain⟩ :=
    (hsettled root (ht.mem_elements_self root)).exists_style hcount
  exact ⟨s', r, top, top', hrun, hstored, hnaive, ComputedStyle.fontSize_eq_of_plainForm hplain⟩

/-- The parent of the family, under settings with a least size of 12 pixels. -/
theorem Styler.Reachable.admits_fontSize_family :
    let t := Relative.tree fun _ => .none
    let settings : Settings := { Settings.default with minimumFontSize := 12 }
    ∃ s' r top, (Styler.create settings .approximate Relative.sheets .screen).restyle t .parent =
        .ok (s', r) ∧ s'.styles[t.key .parent]? = some top ∧
      (settings.minimumFontSize ≤ top.own.typography.value.font.size ∨
        settings.defaultFontSize < settings.minimumFontSize ∧
          top.own.typography.value.font.size = settings.defaultFontSize) := by
  intro t settings
  have hs : Reachable settings .approximate Relative.sheets .screen (.create _ _ _ _) :=
    .create _ _ hash
  obtain ⟨s', r, top, -, hrun, hstored, -, -⟩ := hs.exists_restyle_fontSize
    Relative.countable_sheets Relative.fitting_sheets (Relative.rooted_tree _)
    (Relative.fitting_tree _)
  exact ⟨s', r, top, hrun, hstored, (hs.restyle t .parent hrun).admits_fontSize (by decide +kernel)
    (by decide +kernel) hstored (.own top)⟩

/-- A document of one element. -/
def loneTree : StyledTree Unit where
  key _ := 0
  ancestors _ := []
  preceding _ := []
  following _ := []
  tag _ := "html"
  id? _ := none
  classes _ := []
  attribute? _ _ := none
  state _ := .none
  isEmpty _ := true
  inline? _ := none
  hints? _ := none
  isConnected _ := true
  branch e := .node e []

theorem rooted_loneTree : loneTree.Rooted () where
  ancestors_eq h := by cases h
  preceding_eq h := by cases h
  following_eq h := by cases h
  element_branch _ := rfl
  branch_child h := by cases h
  siblings_child {_ before _ _} h := by cases before <;> cases h
  ancestors_root := rfl
  preceding_root := rfl
  key_injective _ _ _ := rfl
  connected _ := rfl

theorem fitting_loneTree : loneTree.Fitting () := by
  rintro e - block (h | h) <;> cases h

/-- Under settings with a default size of 16 pixels and a least size of 20, and without sheets, the
one element of a document has a font of 16 pixels. -/
theorem Styler.restyle_smallFont :
    let settings : Settings := { Settings.default with minimumFontSize := 20 }
    settings.defaultFontSize.isFinite = true ∧ 0 < settings.defaultFontSize ∧
      settings.minimumFontSize.isFinite = true ∧ 0 ≤ settings.minimumFontSize ∧
      ∃ s' r top,
        (Styler.create settings .approximate ⟨.standards, []⟩ .screen).restyle loneTree () =
          .ok (s', r) ∧ s'.styles[loneTree.key ()]? = some top ∧ top.fontSize = 16 ∧
        ¬settings.minimumFontSize ≤ top.fontSize := by
  intro settings
  have hs : Reachable settings .approximate ⟨.standards, []⟩ .screen (.create _ _ _ _) :=
    .create _ _ hash
  obtain ⟨s', r, top, top', hrun, hstored, hnaive, hsize⟩ := hs.exists_restyle_fontSize
    ⟨by decide, fun entry hentry => absurd hentry List.not_mem_nil⟩
    (fun entry hentry => absurd hentry List.not_mem_nil) rooted_loneTree fitting_loneTree
  have hseen : ((SheetSet.naivePass ⟨.standards, []⟩ .screen settings .approximate loneTree).style
      ()).map (fun s => s.fontSize == 16) = .ok true := by
    decide +kernel
  rw [hnaive] at hseen
  have hplain : plainZero top.fontSize = plainZero 16 :=
    hsize.trans (plainZero_eq_of_beq (Except.ok.inj hseen))
  have hsixteen : top.fontSize = 16 := by
    rcases plainZero_eq_iff.mp hplain with h | ⟨-, h⟩
    · exact h
    · exact absurd (beq_zero_iff.mpr h) (by decide +kernel)
  refine ⟨by decide +kernel, by decide +kernel, by decide +kernel, by decide +kernel, s', r, top,
    hrun, hstored, hsixteen, ?_⟩
  rw [hsixteen]
  decide +kernel

end StyleEngine
