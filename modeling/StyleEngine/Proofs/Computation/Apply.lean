import StyleEngine.Computation.Apply
import StyleEngine.Proofs.Computation.Accepted
import StyleEngine.Proofs.Computation.Declared
import StyleEngine.Proofs.Style.Access

/-!
# Styles computed in alike contexts

Two contexts are alike if what a style hangs on in them has one plain form. Declarations of equal
plain forms come to styles of one plain form there, whatever the stamps. They come to a style at all
if every declaration fits its property.

## Main definitions

* `StyleContext.Alike`: contexts that are not told apart.
* `StyleContext.assigned`: a style before it is adjusted.
* `Declaration.Fits`: the property accepts the value.

## Main statements

* `StyleContext.assigned_induction`: what assignments keep holds of a style before it is adjusted.
* `StyleContext.plainForm_apply`: alike contexts give alike styles.
* `StyleContext.exists_apply`: declarations that fit come to a style.
* `StyleContext.styleType_apply`: the style for a pseudo-element is marked as such.
-/

namespace StyleEngine

/-! ## Computations that can fail -/

theorem bind_of_eq_ok {ε α β : Type} {x : Except ε α} {f : α → Except ε β} {a : α} (h : x = .ok a) :
    (x >>= f) = f a := by
  rw [h]
  rfl

theorem exists_of_bind_eq_ok {ε α β : Type} {x : Except ε α} {f : α → Except ε β} {b : β}
    (h : (x >>= f) = .ok b) : ∃ a, x = .ok a ∧ f a = .ok b := by
  cases x with
  | error error => cases h
  | ok a => exact ⟨a, rfl, h⟩

theorem exists_of_map_eq_ok {ε α β : Type} {f : α → β} {x : Except ε α} {b : β}
    (h : x.map f = .ok b) : ∃ a, x = .ok a ∧ f a = b := by
  cases x with
  | error error => cases h
  | ok a => exact ⟨a, rfl, Except.ok.inj h⟩

theorem eq_error_of_map_eq_error {ε α β : Type} {f : α → β} {x : Except ε α} {error : ε}
    (h : x.map f = .error error) : x = .error error := by
  cases x with
  | error error => exact congrArg Except.error (Except.error.inj h)
  | ok a => cases h

/-- Answers that agree under functions stay so when alike computations go on. -/
theorem map_bind_congr {ε α β γ δ : Type} {p : α → β} {q : γ → δ} {x y : Except ε α}
    {f g : α → Except ε γ} (hx : x.map p = y.map p)
    (hf : ∀ {a b}, p a = p b → (f a).map q = (g b).map q) :
    (x >>= f).map q = (y >>= g).map q := by
  cases x <;> cases y
  · exact congrArg Except.error (Except.error.inj hx)
  · cases hx
  · cases hx
  · exact hf (Except.ok.inj hx)

/-! ## Contexts and declarations -/

/-- Metrics that do not tell the zeros apart. -/
def FontMetrics.Fair (metrics : FontMetrics) : Prop :=
  ∀ {font font' : Font}, font.plainForm = font'.plainForm →
    plain (metrics font) = plain (metrics font')

theorem FontMetrics.fair_approximate : FontMetrics.approximate.Fair :=
  fun h => plainZero_mul (congrArg Font.size h) rfl

/-- The fields that a declaration writes. -/
def PropertyId.fields : PropertyId → List Field
  | known p => p.fields
  | unknown _ => []

/-- A declaration whose value some context accepts. -/
def Declaration.Fits (d : Declaration) : Prop :=
  ∃ (c : StyleContext) (scale : LengthScale) (l : List Assignment), c.assignments scale d = .ok l

/-- It is enough to try a declaration at a root without styles. -/
theorem Declaration.fits_of_root {d : Declaration} {l : List Assignment}
    (h : StyleContext.assignments ⟨.initial 0 16, .default, .approximate, none, none, true, 16⟩
      ⟨16, 8, 16⟩ d = .ok l) : d.Fits :=
  ⟨_, _, l, h⟩

namespace StyleContext

/-- Contexts that agree in all that a style hangs on, up to plain forms. -/
structure Alike (c c' : StyleContext) : Prop where
  initial : c.initial.plainForm = c'.initial.plainForm
  settings : c.settings.SameFonts c'.settings
  metrics : c.metrics = c'.metrics
  fair : c'.metrics.Fair
  parent : c.parent.map ComputedStyle.plainForm = c'.parent.map ComputedStyle.plainForm
  pseudo : c.pseudo = c'.pseudo
  isRoot : c.isRoot = c'.isRoot
  rootFontSize : plain c.rootFontSize = plain c'.rootFontSize

/-! ## Steps -/

section Steps

/-- The style that declarations come to before it is adjusted. -/
def assigned (c : StyleContext) (stamp : Stamp) (ds : List Declaration) :
    Except StyleError OwnStyle := do
  let (fonts, others) := ds.partition (·.property.isFont)
  let own ← c.applyAll stamp c.fontScale c.fresh.own fonts
  c.applyAll stamp (c.ownScale own) own others

variable {c : StyleContext} {stamp : Stamp} {scale : LengthScale} {d : Declaration}
  {ds : List Declaration} {s s' : OwnStyle}

/-- Adjusting comes last. -/
theorem apply_eq (c : StyleContext) (stamp : Stamp) (ds : List Declaration) :
    c.apply stamp ds = (c.assigned stamp ds).map fun own =>
      { c.fresh with own := own.adjust stamp c.isRoot } := by
  unfold apply assigned
  simp only [bind, Except.bind]
  split
  · rfl
  · split <;> simp_all [Except.map, pure, Except.pure]

theorem exists_of_apply {s : ComputedStyle} (h : c.apply stamp ds = .ok s) :
    ∃ own, c.assigned stamp ds = .ok own ∧
      s = { c.fresh with own := own.adjust stamp c.isRoot } := by
  rw [apply_eq] at h
  obtain ⟨own, hassigned, rfl⟩ := exists_of_map_eq_ok h
  exact ⟨own, hassigned, rfl⟩

/-- Declarations are assigned in two rows, the fonts in the first one. -/
theorem exists_of_assigned (h : c.assigned stamp ds = .ok s) : ∃ mid,
    c.applyAll stamp c.fontScale c.fresh.own (ds.filter (·.property.isFont)) = .ok mid ∧
      c.applyAll stamp (c.ownScale mid) mid (ds.filter (!·.property.isFont)) = .ok s := by
  rw [assigned, List.partition_eq_filter_filter] at h
  exact exists_of_bind_eq_ok h

theorem assigned_of_eq_ok {mid : OwnStyle}
    (hmid : c.applyAll stamp c.fontScale c.fresh.own (ds.filter (·.property.isFont)) = .ok mid)
    (hs : c.applyAll stamp (c.ownScale mid) mid (ds.filter (!·.property.isFont)) = .ok s) :
    c.assigned stamp ds = .ok s := by
  rw [assigned, List.partition_eq_filter_filter]
  exact (bind_of_eq_ok hmid).trans hs

/-- A declaration is applied by way of its assignments. -/
theorem exists_of_applyOne (h : c.applyOne stamp scale s d = .ok s') :
    ∃ l, c.assignments scale d = .ok l ∧ s' = l.foldl (OwnStyle.assign stamp) s := by
  obtain ⟨l, hl, rfl⟩ := exists_of_map_eq_ok h
  exact ⟨l, hl, rfl⟩

/-- What the assignments of declarations keep is kept by applying them in a row. -/
theorem applyAll_induction {P : OwnStyle → Prop} (hassign : ∀ d ∈ ds, ∀ l,
      c.assignments scale d = .ok l → ∀ a ∈ l, ∀ s, P s → P (s.assign stamp a))
    (hs : P s) (h : c.applyAll stamp scale s ds = .ok s') : P s' := by
  induction ds generalizing s with
  | nil =>
    obtain rfl := Except.ok.inj h
    exact hs
  | cons d ds ih =>
    rw [List.forall_mem_cons] at hassign
    rw [applyAll, List.foldlM_cons] at h
    obtain ⟨mid, hone, hrest⟩ := exists_of_bind_eq_ok h
    obtain ⟨l, hl, rfl⟩ := exists_of_applyOne hone
    have hmid : P (l.foldl (OwnStyle.assign stamp) s) :=
      List.foldlRecOn l (OwnStyle.assign stamp) hs fun s hs a ha => hassign.1 l hl a ha s hs
    exact ih hassign.2 hmid hrest

/-- What holds of a style at the start, and is kept by assignments, holds before it is adjusted. -/
theorem assigned_induction {P : OwnStyle → Prop} (hassign : ∀ scale, ∀ d ∈ ds, ∀ l,
      c.assignments scale d = .ok l → ∀ a ∈ l, ∀ s, P s → P (s.assign stamp a))
    (hfresh : P c.fresh.own) (h : c.assigned stamp ds = .ok s) : P s := by
  obtain ⟨mid, hmid, hs⟩ := exists_of_assigned h
  have hrow (scale : LengthScale) (q : PropertyId → Bool) : ∀ d ∈ ds.filter (q ·.property), ∀ l,
      c.assignments scale d = .ok l → ∀ a ∈ l, ∀ s, P s → P (s.assign stamp a) :=
    fun d hd => hassign scale d (List.mem_of_mem_filter hd)
  exact applyAll_induction (hrow _ (!·.isFont)) (applyAll_induction (hrow _ (·.isFont)) hfresh hmid)
    hs

end Steps

/-! ## What is accepted -/

/-- A value is taken over from another style, or else it is computed. -/
theorem assignments_cases (value : Value) :
    value = .inherit ∨ value = .initial ∨
      ∀ (c : StyleContext) (scale : LengthScale) (p : Property) (important : Bool),
        c.assignments scale ⟨.known p, value, important⟩ =
          (p.compute? ⟨c.settings, c.inherited.own, scale⟩ value).elim (.error (.misfit p))
            .ok := by
  cases value with
  | inherit => exact .inl rfl
  | initial => exact .inr (.inl rfl)
  | _ =>
    refine .inr (.inr fun c scale p important => ?_)
    unfold assignments
    dsimp only
    cases p.compute? ⟨c.settings, c.inherited.own, scale⟩ _ <;> rfl

/-- A declaration that fits comes to assignments in every context. -/
theorem exists_assignments {d : Declaration} (h : d.Fits) (c : StyleContext) (scale : LengthScale) :
    ∃ l, c.assignments scale d = .ok l := by
  obtain ⟨c', scale', l', h'⟩ := h
  obtain ⟨property, value, important⟩ := d
  cases property with
  | unknown code => exact ⟨[], rfl⟩
  | known p =>
    rcases assignments_cases value with rfl | rfl | hcomputed
    · exact ⟨_, rfl⟩
    · exact ⟨_, rfl⟩
    · rw [hcomputed] at h' ⊢
      have hsome := p.isSome_compute? ⟨c.settings, c.inherited.own, scale⟩
        ⟨c'.settings, c'.inherited.own, scale'⟩ value
      cases hl' : p.compute? ⟨c'.settings, c'.inherited.own, scale'⟩ value with
      | none => simp [hl'] at h'
      | some computed' =>
        rw [hl', Option.isSome_some] at hsome
        obtain ⟨computed, hl⟩ := Option.isSome_iff_exists.mp hsome
        refine ⟨computed, ?_⟩
        rw [hl, Option.elim_some]

/-- Declarations that fit are applied without an error. -/
theorem exists_applyAll {ds : List Declaration} (h : ∀ d ∈ ds, d.Fits) (c : StyleContext)
    (stamp : Stamp) (scale : LengthScale) (s : OwnStyle) :
    ∃ s', c.applyAll stamp scale s ds = .ok s' := by
  induction ds generalizing s with
  | nil => exact ⟨s, rfl⟩
  | cons d ds ih =>
    obtain ⟨l, hl⟩ := exists_assignments (h d List.mem_cons_self) c scale
    obtain ⟨s', hs'⟩ := ih (fun d hd => h d (List.mem_cons_of_mem _ hd))
      (l.foldl (OwnStyle.assign stamp) s)
    refine ⟨s', ?_⟩
    rw [applyAll, List.foldlM_cons, applyOne, hl]
    exact hs'

/-- Declarations that fit come to a style. -/
theorem exists_apply {ds : List Declaration} (h : ∀ d ∈ ds, d.Fits) (c : StyleContext)
    (stamp : Stamp) : ∃ s, c.apply stamp ds = .ok s := by
  have hrow (q : PropertyId → Bool) : ∀ d ∈ ds.filter (q ·.property), d.Fits :=
    fun d hd => h d (List.mem_of_mem_filter hd)
  obtain ⟨mid, hmid⟩ := exists_applyAll (hrow (·.isFont)) c stamp c.fontScale c.fresh.own
  obtain ⟨own, hown⟩ := exists_applyAll (hrow (!·.isFont)) c stamp (c.ownScale mid) mid
  refine ⟨{ c.fresh with own := own.adjust stamp c.isRoot }, ?_⟩
  rw [apply_eq, assigned_of_eq_ok hmid hown]
  rfl

/-! ## What is written -/

theorem map_field_assignments {c : StyleContext} {scale : LengthScale} {d : Declaration}
    {l : List Assignment} (h : c.assignments scale d = .ok l) :
    l.map Assignment.field = d.property.fields := by
  obtain ⟨property, value, important⟩ := d
  cases property with
  | unknown code =>
    obtain rfl := Except.ok.inj h
    rfl
  | known p =>
    have stored (s : OwnStyle) : (p.assignmentsFrom s).map Assignment.field = p.fields := by
      rw [Property.assignmentsFrom, List.map_map]
      exact List.map_id _
    rcases assignments_cases value with rfl | rfl | hcomputed
    · obtain rfl := Except.ok.inj h
      exact stored _
    · obtain rfl := Except.ok.inj h
      exact stored _
    · rw [hcomputed] at h
      cases hl : p.compute? ⟨c.settings, c.inherited.own, scale⟩ value with
      | none => simp [hl] at h
      | some computed =>
        rw [hl, Option.elim_some] at h
        obtain rfl := Except.ok.inj h
        exact Property.map_field_compute? hl

/-- Assignments leave the other fields alone. -/
theorem get_foldl_assign {stamp : Stamp} {l : List Assignment} {s : OwnStyle} {f : Field}
    (h : f ∉ l.map Assignment.field) : (l.foldl (OwnStyle.assign stamp) s).get f = s.get f := by
  induction l generalizing s with
  | nil => rfl
  | cons a l ih =>
    rw [List.map_cons, List.mem_cons, not_or] at h
    exact (ih h.2).trans (OwnStyle.get_set_of_ne stamp s a.value h.1)

/-- A field that no property stands for is left as it was at the start. -/
theorem get_assigned {c : StyleContext} {stamp : Stamp} {ds : List Declaration} {s : OwnStyle}
    {f : Field} (hf : ∀ p : Property, f ∉ p.fields) (h : c.assigned stamp ds = .ok s) :
    s.get f = c.fresh.own.get f := by
  refine assigned_induction (P := fun s => s.get f = c.fresh.own.get f) ?_ rfl h
  intro scale d _ l hl a ha s hs
  have hfield : f ∉ d.property.fields := by
    cases d.property with
    | known p => exact hf p
    | unknown code => exact List.not_mem_nil
  rw [← map_field_assignments hl] at hfield
  have hother : f ≠ a.field := fun heq => hfield (heq ▸ List.mem_map_of_mem ha)
  exact (OwnStyle.get_set_of_ne stamp s a.value hother).trans hs

/-! ## What a style is for -/

theorem styleType_adjust (stamp : Stamp) (isRoot : Bool) (s : OwnStyle) :
    (s.adjust stamp isRoot).box.styleType = s.box.styleType := by
  have hflow (k : BoxKeywords) : (k.settleFlow isRoot).styleType = k.styleType := by
    simp only [BoxKeywords.settleFlow, BoxKeywords.holdRows, BoxKeywords.blockify,
      BoxKeywords.dropFloat]
    grind
  have hoverflow (k : BoxKeywords) : k.settleOverflow.styleType = k.styleType := by
    simp only [BoxKeywords.settleOverflow, BoxKeywords.pairOverflow]
    grind
  have hlevel (s : OwnStyle) : (s.dropLevel stamp).box.styleType = s.box.styleType := by
    unfold OwnStyle.dropLevel
    split
    · have hother : Field.box .styleType ≠ .sizing .zIndex := nofun
      exact OwnStyle.get_set_of_ne stamp s none hother
    · rfl
  exact (hoverflow _).trans ((hlevel _).trans (hflow _))

/-- The style for a pseudo-element is marked as such. -/
theorem styleType_apply {c : StyleContext} {stamp : Stamp} {ds : List Declaration}
    {s : ComputedStyle} {p : PseudoElement} (hp : c.pseudo = some p)
    (h : c.apply stamp ds = .ok s) : s.styleType = some p := by
  have hfresh : c.fresh.own.box.styleType = some p := by
    unfold fresh
    rw [hp]
    cases c.parent <;> rfl
  obtain ⟨own, hown, rfl⟩ := exists_of_apply h
  calc (own.adjust stamp c.isRoot).box.styleType
      = own.box.styleType := styleType_adjust stamp c.isRoot own
    _ = c.fresh.own.box.styleType :=
      get_assigned (f := .box .styleType) Property.styleType_not_mem_fields hown
    _ = some p := hfresh

/-- A style is computed with the pseudo-element styles that it is started with. -/
theorem pseudos_apply {c : StyleContext} {stamp : Stamp} {ds : List Declaration}
    {s : ComputedStyle} (h : c.apply stamp ds = .ok s) : s.pseudos = c.initial.pseudos := by
  have hfresh : c.fresh.pseudos = c.initial.pseudos := by
    unfold fresh
    cases c.pseudo <;> cases c.parent <;> rfl
  obtain ⟨own, -, rfl⟩ := exists_of_apply h
  exact hfresh

/-! ## Alike contexts -/

/-- Assignments of one plain form do the same to the plain form of a style. -/
theorem plainForm_foldl_assign (stamp stamp' : Stamp) {l l' : List Assignment}
    (hl : Property.plainAll l = Property.plainAll l') {s s' : OwnStyle}
    (hs : s.plainForm = s'.plainForm) :
    (l.foldl (OwnStyle.assign stamp) s).plainForm =
      (l'.foldl (OwnStyle.assign stamp') s').plainForm := by
  induction l generalizing l' s s' with
  | nil =>
    obtain rfl := List.map_eq_nil_iff.mp hl.symm
    exact hs
  | cons a l ih =>
    cases l' with
    | nil => cases hl
    | cons a' l' =>
      obtain ⟨ha, hl⟩ := List.cons.inj hl
      refine ih hl ?_
      obtain ⟨f, v⟩ := a
      obtain ⟨f', v'⟩ := a'
      rw [Assignment.plainForm, Assignment.plainForm, Assignment.mk.injEq] at ha
      obtain ⟨rfl, hv⟩ := ha
      exact OwnStyle.plainForm_set_congr hs stamp stamp' (eq_of_heq hv)

theorem map_elim_congr {p : Property} {o o' : Option (List Assignment)}
    (h : o.map Property.plainAll = o'.map Property.plainAll) :
    (o.elim (.error (.misfit p)) .ok : Except StyleError _).map Property.plainAll =
      (o'.elim (.error (.misfit p)) .ok : Except StyleError _).map Property.plainAll := by
  rcases eq_none_or_of_map_eq h with ⟨rfl, rfl⟩ | ⟨l, l', rfl, rfl, heq⟩
  · rfl
  · exact congrArg Except.ok heq

/-- A declaration and its plain form come to assignments of one plain form. -/
theorem assignments_plainForm (c : StyleContext) (scale : LengthScale) (d : Declaration) :
    (c.assignments scale d.plainForm).map Property.plainAll =
      (c.assignments scale d).map Property.plainAll := by
  obtain ⟨property, value, important⟩ := d
  cases property with
  | unknown code => rfl
  | known p =>
    rcases assignments_cases value with rfl | rfl | hcomputed
    · rfl
    · rfl
    · rcases assignments_cases value.plainForm with hkeyword | hkeyword | hplain
      · cases value <;> cases hkeyword
        rfl
      · cases value <;> cases hkeyword
        rfl
      · change (c.assignments scale ⟨.known p, value.plainForm, important⟩).map _ = _
        rw [hplain, hcomputed]
        exact map_elim_congr (p.plain_compute?_plainForm _ value)

variable {c c' : StyleContext} (h : c.Alike c')

include h

namespace Alike

theorem inherited : c.inherited.plainForm = c'.inherited.plainForm := by
  unfold StyleContext.inherited
  rcases eq_none_or_of_map_eq h.parent with ⟨hp, hp'⟩ | ⟨p, p', hp, hp', heq⟩
  · rw [hp, hp']
    exact h.initial
  · rw [hp, hp']
    exact heq

theorem fresh : c.fresh.plainForm = c'.fresh.plainForm := by
  have freshFor {i i' : ComputedStyle} (hi : i.plainForm = i'.plainForm) :
      (ComputedStyle.freshFor i c.parent).plainForm =
        (ComputedStyle.freshFor i' c'.parent).plainForm := by
    rcases eq_none_or_of_map_eq h.parent with ⟨hp, hp'⟩ | ⟨p, p', hp, hp', heq⟩
    · rw [hp, hp']
      exact hi
    · rw [hp, hp']
      exact ComputedStyle.plainForm_inheritFrom hi heq
  unfold StyleContext.fresh
  rw [h.pseudo]
  cases c'.pseudo with
  | none => exact freshFor h.initial
  | some p =>
    have hown := ComputedStyle.own_eq_of_plainForm h.initial
    have hbox := OwnStyle.box_eq_of_plainForm hown
    have hpseudos := ComputedStyle.pseudos_eq_of_plainForm h.initial
    refine freshFor (ComputedStyle.plainForm_congr ?_ hpseudos)
    exact OwnStyle.plainForm_with_box hown (by rw [hbox])

theorem scale {font font' : Font} (hfont : font.plainForm = font'.plainForm)
    {size size' : Float32} (hsize : plain size = plain size') :
    (c.scale font size).plainForm = (c'.scale font' size').plainForm := by
  have hfontSize : plain font.size = plain font'.size := congrArg Font.size hfont
  have hheight : plain (c.metrics font) = plain (c'.metrics font') := by
    rw [h.metrics]
    exact h.fair hfont
  simp only [StyleContext.scale, LengthScale.plainForm, hfontSize, hheight, hsize]

theorem fontScale : c.fontScale.plainForm = c'.fontScale.plainForm := by
  have hinherited := ComputedStyle.own_eq_of_plainForm h.inherited
  exact h.scale (OwnStyle.font_eq_of_plainForm hinherited) h.rootFontSize

theorem ownScale {s s' : OwnStyle} (hs : s.plainForm = s'.plainForm) :
    (c.ownScale s).plainForm = (c'.ownScale s').plainForm := by
  have hfont := OwnStyle.font_eq_of_plainForm hs
  refine h.scale hfont ?_
  rw [h.isRoot]
  split
  · exact congrArg Font.size hfont
  · exact h.rootFontSize

theorem assignments {scale scale' : LengthScale} (hscale : scale.plainForm = scale'.plainForm)
    {d d' : Declaration} (hd : d.plainForm = d'.plainForm) :
    (c.assignments scale d).map Property.plainAll =
      (c'.assignments scale' d').map Property.plainAll := by
  have hinherited := ComputedStyle.own_eq_of_plainForm h.inherited
  have hinitial := ComputedStyle.own_eq_of_plainForm h.initial
  rw [← assignments_plainForm c, hd, ← assignments_plainForm c' scale' d']
  obtain ⟨property, value, important⟩ := d'.plainForm
  cases property with
  | unknown code => rfl
  | known p =>
    rcases assignments_cases value with rfl | rfl | hcomputed
    · exact congrArg Except.ok (p.plain_assignmentsFrom hinherited)
    · exact congrArg Except.ok (p.plain_assignmentsFrom hinitial)
    · rw [hcomputed, hcomputed, p.compute?_congr_settings h.settings]
      exact map_elim_congr (p.plain_compute? c'.settings hinherited hscale value)

theorem applyAll (stamp stamp' : Stamp) {scale scale' : LengthScale}
    (hscale : scale.plainForm = scale'.plainForm) {ds ds' : List Declaration}
    (hds : ds.map Declaration.plainForm = ds'.map Declaration.plainForm) {s s' : OwnStyle}
    (hs : s.plainForm = s'.plainForm) :
    (c.applyAll stamp scale s ds).map OwnStyle.plainForm =
      (c'.applyAll stamp' scale' s' ds').map OwnStyle.plainForm := by
  induction ds generalizing ds' s s' with
  | nil =>
    obtain rfl := List.map_eq_nil_iff.mp hds.symm
    exact congrArg Except.ok hs
  | cons d ds ih =>
    cases ds' with
    | nil => cases hds
    | cons d' ds' =>
      obtain ⟨hd, hds⟩ := List.cons.inj hds
      rw [StyleContext.applyAll, StyleContext.applyAll, List.foldlM_cons, List.foldlM_cons]
      have hone : (c.applyOne stamp scale s d).map OwnStyle.plainForm =
          (c'.applyOne stamp' scale' s' d').map OwnStyle.plainForm := by
        have hassign := h.assignments hscale hd
        unfold applyOne
        cases hl : c.assignments scale d <;> cases hl' : c'.assignments scale' d' <;>
          rw [hl, hl'] at hassign
        · exact congrArg Except.error (Except.error.inj hassign)
        · cases hassign
        · cases hassign
        · exact congrArg Except.ok (plainForm_foldl_assign stamp stamp' (Except.ok.inj hassign) hs)
      exact map_bind_congr hone (ih hds)

end Alike

omit h in
/-- Adjusting reads and writes what the plain form shows. -/
theorem plainForm_adjust {s s' : OwnStyle} (hs : s.plainForm = s'.plainForm)
    (stamp stamp' : Stamp) (isRoot : Bool) :
    (s.adjust stamp isRoot).plainForm = (s'.adjust stamp' isRoot).plainForm := by
  have dropLevel {s s' : OwnStyle} (hs : s.plainForm = s'.plainForm) :
      (s.dropLevel stamp).plainForm = (s'.dropLevel stamp').plainForm := by
    unfold OwnStyle.dropLevel
    rw [OwnStyle.box_eq_of_plainForm hs]
    split
    · exact OwnStyle.plainForm_set_congr hs stamp stamp' rfl
    · exact hs
  have passDecorations {s s' : OwnStyle} (hs : s.plainForm = s'.plainForm) :
      s.passDecorations.plainForm = s'.passDecorations.plainForm := by
    refine OwnStyle.plainForm_with_inherited hs ?_
    rw [OwnStyle.box_eq_of_plainForm hs, OwnStyle.inherited_eq_of_plainForm hs,
      OwnStyle.textDecoration_eq_of_plainForm hs]
  have hflow := OwnStyle.plainForm_with_box hs
    (congrArg (BoxKeywords.settleFlow isRoot) (OwnStyle.box_eq_of_plainForm hs))
  have hpassed := passDecorations (dropLevel hflow)
  exact OwnStyle.plainForm_with_box hpassed
    (congrArg BoxKeywords.settleOverflow (OwnStyle.box_eq_of_plainForm hpassed))

/-- Alike contexts and declarations of equal plain forms give styles of one plain form, under any
stamps. -/
theorem plainForm_apply (stamp stamp' : Stamp) {ds ds' : List Declaration}
    (hds : ds.map Declaration.plainForm = ds'.map Declaration.plainForm) :
    (c.apply stamp ds).map ComputedStyle.plainForm =
      (c'.apply stamp' ds').map ComputedStyle.plainForm := by
  have hfresh := ComputedStyle.own_eq_of_plainForm h.fresh
  have hpseudos := ComputedStyle.pseudos_eq_of_plainForm h.fresh
  have hfilter (keep : Bool → Bool) :
      (ds.filter fun d => keep d.property.isFont).map Declaration.plainForm =
        (ds'.filter fun d => keep d.property.isFont).map Declaration.plainForm := by
    have hcomm (l : List Declaration) :
        (l.filter fun d => keep d.property.isFont).map Declaration.plainForm =
          (l.map Declaration.plainForm).filter fun d => keep d.property.isFont :=
      (List.filter_map (p := fun d : Declaration => keep d.property.isFont)).symm
    rw [hcomm, hcomm, hds]
  unfold StyleContext.apply
  rw [List.partition_eq_filter_filter, List.partition_eq_filter_filter]
  refine map_bind_congr (p := OwnStyle.plainForm)
    (h.applyAll stamp stamp' h.fontScale (hfilter id) hfresh) fun {own own'} hown => ?_
  refine map_bind_congr (p := OwnStyle.plainForm)
    (h.applyAll stamp stamp' (h.ownScale hown) (hfilter not) hown) fun {own own'} hown => ?_
  refine congrArg Except.ok (ComputedStyle.plainForm_congr ?_ hpseudos)
  rw [h.isRoot]
  exact plainForm_adjust hown stamp stamp' c'.isRoot

end StyleContext

end StyleEngine
