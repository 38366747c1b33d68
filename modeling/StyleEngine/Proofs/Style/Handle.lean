import StyleEngine.Computation.Apply
import StyleEngine.Proofs.Computation.Apply
import StyleEngine.Proofs.Style.Difference

/-!
# Handles to groups

A style holds eight groups, each by a handle. Whatever is done with styles, a handle is copied from
another style, or made under the stamp of the operation that writes. So the styles that are around
stay coherent: handles with one identity have the same contents.

## Main definitions

* `Group`, `OwnStyle.handle`: the eight groups by name.
* `OwnStyle.Made`: a style whose groups are copied or new.
* `Coherent`: styles in which an identity stands for the same contents.

## Main statements

* `StyleContext.made_apply`: what declarations come to is made under one stamp.
* `Coherent.insert_made`: a style that is made from coherent ones is coherent with them.
-/

namespace StyleEngine

/-! ## Groups by name -/

/-- The groups of a style. -/
inductive Group
  | sizing
  | visual
  | background
  | frame
  | generated
  | effects
  | textEffects
  | typography
deriving DecidableEq, Repr

namespace Group

/-- What a group holds. -/
abbrev Contents : Group → Type
  | sizing => Sizing
  | visual => Visual
  | background => Background
  | frame => Frame
  | generated => Generated
  | effects => Effects
  | textEffects => TextEffects
  | typography => Typography

instance : (g : Group) → BEq g.Contents
  | sizing => inferInstanceAs (BEq Sizing)
  | visual => inferInstanceAs (BEq Visual)
  | background => inferInstanceAs (BEq Background)
  | frame => inferInstanceAs (BEq Frame)
  | generated => inferInstanceAs (BEq Generated)
  | effects => inferInstanceAs (BEq Effects)
  | textEffects => inferInstanceAs (BEq TextEffects)
  | typography => inferInstanceAs (BEq Typography)

end Group

/-- The group that a field stands in. Keywords stand in none. -/
def Field.group? : Field → Option Group
  | .sizing _ => some .sizing
  | .visual _ => some .visual
  | .background _ => some .background
  | .frame _ => some .frame
  | .generated _ => some .generated
  | .effects _ => some .effects
  | .textEffects _ => some .textEffects
  | .typography _ => some .typography
  | .inherited _ | .box _ => none

namespace OwnStyle

/-- The handle to a group. -/
def handle (s : OwnStyle) : (g : Group) → Shared g.Contents
  | .sizing => s.sizing
  | .visual => s.visual
  | .background => s.background
  | .frame => s.frame
  | .generated => s.generated
  | .effects => s.effects
  | .textEffects => s.textEffects
  | .typography => s.typography

/-- The style with another handle to a group. -/
def withHandle (s : OwnStyle) : (g : Group) → Shared g.Contents → OwnStyle
  | .sizing, h => { s with sizing := h }
  | .visual, h => { s with visual := h }
  | .background, h => { s with background := h }
  | .frame, h => { s with frame := h }
  | .generated, h => { s with generated := h }
  | .effects, h => { s with effects := h }
  | .textEffects, h => { s with textEffects := h }
  | .typography, h => { s with typography := h }

@[simp] theorem handle_withHandle (s : OwnStyle) (g : Group) (h : Shared g.Contents) :
    (s.withHandle g h).handle g = h := by
  cases g <;> rfl

theorem handle_withHandle_of_ne (s : OwnStyle) {g g' : Group} (h : Shared g.Contents)
    (hne : g' ≠ g) : (s.withHandle g h).handle g' = s.handle g' := by
  cases g <;> cases g' <;> first | rfl | exact absurd rfl hne

@[simp] theorem withHandle_handle (s : OwnStyle) (g : Group) : s.withHandle g (s.handle g) = s := by
  cases g <;> rfl

/-- Styles that share groups hold equal contents, group by group. -/
theorem sharesEqual_iff {a b : OwnStyle} :
    a.SharesEqual b ↔ ∀ g, (a.handle g).same (b.handle g) = true →
      (a.handle g).value = (b.handle g).value := by
  constructor
  · rintro ⟨h₁, h₂, h₃, h₄, h₅, h₆, h₇, h₈⟩ g
    cases g <;> assumption
  · intro h
    exact ⟨h .sizing, h .visual, h .background, h .frame, h .generated, h .effects, h .textEffects,
      h .typography⟩

/-! ### Writes -/

theorem handle_set_of_none (stamp : Stamp) (s : OwnStyle) {f : Field} (v : f.Value)
    (hf : f.group? = none) (g : Group) : (s.set stamp f v).handle g = s.handle g := by
  cases f with
  | inherited f | box f => cases g <;> rfl
  | _ f => cases hf

/-- A write to a field is left out, or gives the style another group in the place of the one that
the field stands in. -/
theorem set_cases (stamp : Stamp) (s : OwnStyle) {f : Field} (v : f.Value) {g : Group}
    (hf : f.group? = some g) :
    s.set stamp f v = s ∨ ∃ contents, s.set stamp f v = s.withHandle g (.write stamp contents) := by
  cases f with
  | inherited f | box f => cases hf
  | _ f =>
    obtain rfl := Option.some.inj hf
    rw [set]
    split
    · exact .inl rfl
    · exact .inr ⟨_, rfl⟩

@[inherit_doc set_cases]
theorem setFont_cases (stamp : Stamp) (s : OwnStyle) (font : Font) :
    s.setFont stamp font = s ∨
      ∃ contents, s.setFont stamp font = s.withHandle .typography (.write stamp contents) := by
  rw [setFont]
  split
  · exact .inl rfl
  · exact .inr ⟨_, rfl⟩

/-! ## Copied and new groups -/

/-- Each group was made under the stamp, or is that of a style of `P`. -/
def Made (P : OwnStyle → Prop) (stamp : Stamp) (s : OwnStyle) : Prop :=
  ∀ g, (s.handle g).identity = stamp ∨ ∃ own, P own ∧ s.handle g = own.handle g

/-- Each group is that of a style of `P`. -/
def Composed (P : OwnStyle → Prop) (s : OwnStyle) : Prop :=
  ∀ g, ∃ own, P own ∧ s.handle g = own.handle g

variable {P : OwnStyle → Prop} {stamp : Stamp} {s s' : OwnStyle}

theorem Composed.of_mem (h : P s) : s.Composed P :=
  fun _ => ⟨s, h, rfl⟩

theorem Composed.made (h : s.Composed P) (stamp : Stamp) : s.Made P stamp :=
  fun g => .inr (h g)

theorem Composed.of_handle_eq (h : s.Composed P) (heq : ∀ g, s'.handle g = s.handle g) :
    s'.Composed P :=
  fun g => (heq g).symm ▸ h g

theorem Made.of_handle_eq (h : s.Made P stamp) (heq : ∀ g, s'.handle g = s.handle g) :
    s'.Made P stamp :=
  fun g => (heq g).symm ▸ h g

theorem Made.withHandle (h : s.Made P stamp) (g : Group) (contents : g.Contents) :
    (s.withHandle g (.write stamp contents)).Made P stamp := by
  intro g'
  by_cases hg : g' = g
  · subst hg
    rw [handle_withHandle]
    exact .inl rfl
  · rw [handle_withHandle_of_ne s _ hg]
    exact h g'

theorem Made.set (h : s.Made P stamp) (f : Field) (v : f.Value) :
    (s.set stamp f v).Made P stamp := by
  cases hf : f.group? with
  | none => exact h.of_handle_eq (handle_set_of_none stamp s v hf)
  | some g =>
    rcases set_cases stamp s v hf with heq | ⟨contents, heq⟩
    · rwa [heq]
    · rw [heq]
      exact h.withHandle g contents

theorem Made.adjust (h : s.Made P stamp) (isRoot : Bool) :
    (s.adjust stamp isRoot).Made P stamp := by
  have dropLevel {s : OwnStyle} (h : s.Made P stamp) : (s.dropLevel stamp).Made P stamp := by
    unfold OwnStyle.dropLevel
    split
    · exact h.set _ _
    · exact h
  have keywords (s : OwnStyle) (k : InheritedKeywords) (k' : BoxKeywords) (g : Group) :
      { s with inherited := k, box := k' }.handle g = s.handle g := by
    cases g <;> rfl
  have hflow : { s with box := s.box.settleFlow isRoot }.Made P stamp :=
    h.of_handle_eq (keywords s s.inherited _)
  exact (dropLevel hflow).of_handle_eq (keywords _ _ _)

end OwnStyle

/-! ## Coherence -/

/-- Handles with one identity have the same contents, and all identities come before the next
stamp. -/
structure Coherent (P : OwnStyle → Prop) (next : Stamp) : Prop where
  sharesEqual : ∀ {a b}, P a → P b → a.SharesEqual b
  identity_lt : ∀ {a}, P a → ∀ g, (a.handle g).identity < next

namespace Coherent

variable {P Q : OwnStyle → Prop} {next : Stamp} {s : OwnStyle}

theorem mono (h : Coherent P next) (hQ : ∀ own, Q own → P own) : Coherent Q next where
  sharesEqual ha hb := h.sharesEqual (hQ _ ha) (hQ _ hb)
  identity_lt ha := h.identity_lt (hQ _ ha)

/-- A style with groups of coherent styles is coherent with them. -/
theorem insert_composed (h : Coherent P next) (hs : s.Composed P) :
    Coherent (fun own => own = s ∨ P own) next := by
  have hsource {a : OwnStyle} (ha : a = s ∨ P a) (g : Group) :
      ∃ own, P own ∧ a.handle g = own.handle g := by
    rcases ha with rfl | ha
    · exact hs g
    · exact ⟨a, ha, rfl⟩
  constructor
  · refine fun {a b} ha hb => OwnStyle.sharesEqual_iff.mpr fun g hsame => ?_
    obtain ⟨a', ha', heq⟩ := hsource ha g
    obtain ⟨b', hb', heq'⟩ := hsource hb g
    rw [heq, heq'] at hsame ⊢
    exact OwnStyle.sharesEqual_iff.mp (h.sharesEqual ha' hb') g hsame
  · intro a ha g
    obtain ⟨a', ha', heq⟩ := hsource ha g
    rw [heq]
    exact h.identity_lt ha' g

/-- A style with new groups beside those of coherent styles is coherent with them: no older group
has the identity of a new one. -/
theorem insert_made (h : Coherent P next) (hs : s.Made P next) :
    Coherent (fun own => own = s ∨ P own) (next + 1) := by
  have hlt {a : OwnStyle} (ha : a = s ∨ P a) (g : Group) : (a.handle g).identity < next + 1 := by
    rcases ha with rfl | ha
    · rcases hs g with hnew | ⟨own, hown, heq⟩
      · exact hnew ▸ Nat.lt_succ_self next
      · exact heq ▸ Nat.lt_succ_of_lt (h.identity_lt hown g)
    · exact Nat.lt_succ_of_lt (h.identity_lt ha g)
  -- A group is new, and then it is the group of `s`, or it is that of an older style.
  have hsource {a : OwnStyle} (ha : a = s ∨ P a) (g : Group) :
      (a = s ∧ (a.handle g).identity = next) ∨ ∃ own, P own ∧ a.handle g = own.handle g := by
    rcases ha with rfl | ha
    · exact (hs g).imp (⟨rfl, ·⟩) id
    · exact .inr ⟨a, ha, rfl⟩
  have holder {own : OwnStyle} (hown : P own) (g : Group) : (own.handle g).identity ≠ next :=
    Nat.ne_of_lt (h.identity_lt hown g)
  refine ⟨fun {a b} ha hb => OwnStyle.sharesEqual_iff.mpr fun g hsame => ?_, fun ha => hlt ha⟩
  have hid : (a.handle g).identity = (b.handle g).identity := beq_iff_eq.mp hsame
  rcases hsource ha g with ⟨rfl, hnew⟩ | ⟨a', ha', heq⟩ <;>
    rcases hsource hb g with ⟨rfl, hnew'⟩ | ⟨b', hb', heq'⟩
  · rfl
  · rw [heq'] at hid
    exact absurd (hid.symm.trans hnew) (holder hb' g)
  · rw [heq] at hid
    exact absurd (hid.trans hnew') (holder ha' g)
  · rw [heq, heq'] at hsame ⊢
    exact OwnStyle.sharesEqual_iff.mp (h.sharesEqual ha' hb') g hsame

/-- A style that writes to a group stays coherent with others, if none of them holds a group of the
identity that is written to. -/
theorem insert_withHandle (h : Coherent P next) (hs : P s) (hQ : ∀ own, Q own → P own) {g : Group}
    {identity : Stamp} (hid : ∀ own, Q own → (own.handle g).identity ≠ identity)
    (hlt : identity < next + 1) (contents : g.Contents) :
    Coherent (fun own => own = s.withHandle g (.write identity contents) ∨ Q own) (next + 1) := by
  have hwritten : (s.withHandle g (.write identity contents)).handle g = .write identity contents :=
    s.handle_withHandle g _
  have hother {a : OwnStyle} (ha : a = s.withHandle g (.write identity contents) ∨ Q a) {g' : Group}
      (hg : g' ≠ g) : ∃ own, P own ∧ a.handle g' = own.handle g' := by
    rcases ha with rfl | ha
    · exact ⟨s, hs, s.handle_withHandle_of_ne _ hg⟩
    · exact ⟨a, hQ a ha, rfl⟩
  constructor
  · refine fun {a b} ha hb => OwnStyle.sharesEqual_iff.mpr fun g' hsame => ?_
    by_cases hg : g' = g
    · subst hg
      have hidentity : (a.handle g').identity = (b.handle g').identity := beq_iff_eq.mp hsame
      rcases ha with rfl | ha <;> rcases hb with rfl | hb
      · rfl
      · rw [hwritten] at hidentity
        exact absurd hidentity.symm (hid b hb)
      · rw [hwritten] at hidentity
        exact absurd hidentity (hid a ha)
      · exact OwnStyle.sharesEqual_iff.mp (h.sharesEqual (hQ a ha) (hQ b hb)) g' hsame
    · obtain ⟨a', ha', heq⟩ := hother ha hg
      obtain ⟨b', hb', heq'⟩ := hother hb hg
      rw [heq, heq'] at hsame ⊢
      exact OwnStyle.sharesEqual_iff.mp (h.sharesEqual ha' hb') g' hsame
  · intro a ha g'
    by_cases hg : g' = g
    · subst hg
      rcases ha with rfl | ha
      · rw [hwritten]
        exact hlt
      · exact Nat.lt_succ_of_lt (h.identity_lt (hQ a ha) g')
    · obtain ⟨a', ha', heq⟩ := hother ha hg
      rw [heq]
      exact Nat.lt_succ_of_lt (h.identity_lt ha' g')

end Coherent

/-! ## Styles made of styles -/

namespace ComputedStyle

variable {P : OwnStyle → Prop}

theorem part_iff {s : ComputedStyle} {own : OwnStyle} :
    s.Part own ↔ own = s.own ∨ ∃ entry ∈ s.pseudos, entry.2.Part own := by
  constructor
  · rintro (_ | ⟨hentry, hpart⟩)
    · exact .inl rfl
    · exact .inr ⟨_, hentry, hpart⟩
  · rintro (rfl | ⟨entry, hentry, hpart⟩)
    · exact .own s
    · exact .pseudo hentry hpart

mutual
/-- The own part of a style and of each style in it. -/
def parts (s : ComputedStyle) : List OwnStyle :=
  match s with
  | ⟨own, pseudos⟩ => own :: partsOfAll pseudos
def partsOfAll (l : List (PseudoElement × ComputedStyle)) : List OwnStyle :=
  match l with
  | [] => []
  | (_, s) :: l => parts s ++ partsOfAll l
end

mutual
/-- The style with every part changed. -/
def mapParts (f : OwnStyle → OwnStyle) (s : ComputedStyle) : ComputedStyle :=
  match s with
  | ⟨own, pseudos⟩ => ⟨f own, mapPartsOfAll f pseudos⟩
def mapPartsOfAll (f : OwnStyle → OwnStyle) (l : List (PseudoElement × ComputedStyle)) :
    List (PseudoElement × ComputedStyle) :=
  match l with
  | [] => []
  | (p, s) :: l => (p, mapParts f s) :: mapPartsOfAll f l
end

mutual
theorem mem_parts (s : ComputedStyle) (own : OwnStyle) : own ∈ s.parts ↔ s.Part own := by
  match s with
  | ⟨own', pseudos⟩ => rw [parts, List.mem_cons, mem_partsOfAll, part_iff]
theorem mem_partsOfAll (l : List (PseudoElement × ComputedStyle)) (own : OwnStyle) :
    own ∈ partsOfAll l ↔ ∃ entry ∈ l, entry.2.Part own := by
  match l with
  | [] => simp [partsOfAll]
  | (p, s) :: l =>
    rw [partsOfAll, List.mem_append, mem_parts, mem_partsOfAll, List.exists_mem_cons_iff]
end

mutual
theorem mapParts_eq_self {f : OwnStyle → OwnStyle} (s : ComputedStyle)
    (h : ∀ own ∈ s.parts, f own = own) : s.mapParts f = s := by
  match s with
  | ⟨own, pseudos⟩ =>
    rw [parts, List.forall_mem_cons] at h
    rw [mapParts, h.1, mapPartsOfAll_eq_self pseudos h.2]
theorem mapPartsOfAll_eq_self {f : OwnStyle → OwnStyle} (l : List (PseudoElement × ComputedStyle))
    (h : ∀ own ∈ partsOfAll l, f own = own) : mapPartsOfAll f l = l := by
  match l with
  | [] => rw [mapPartsOfAll]
  | (p, s) :: l =>
    rw [partsOfAll, List.forall_mem_append] at h
    rw [mapPartsOfAll, mapParts_eq_self s h.1, mapPartsOfAll_eq_self l h.2]
end

mutual
theorem parts_mapParts (f : OwnStyle → OwnStyle) (s : ComputedStyle) :
    (s.mapParts f).parts = s.parts.map f := by
  match s with
  | ⟨own, pseudos⟩ => rw [mapParts, parts, parts, List.map_cons, partsOfAll_mapParts f pseudos]
theorem partsOfAll_mapParts (f : OwnStyle → OwnStyle) (l : List (PseudoElement × ComputedStyle)) :
    partsOfAll (mapPartsOfAll f l) = (partsOfAll l).map f := by
  match l with
  | [] => rfl
  | (p, s) :: l =>
    rw [mapPartsOfAll, partsOfAll, partsOfAll, List.map_append, parts_mapParts f s,
      partsOfAll_mapParts f l]
end

/-- A style with the pseudo-element styles of another one has one part of its own. -/
theorem part_of_pseudos_eq {s s' : ComputedStyle} (h : s'.pseudos = s.pseudos) {own : OwnStyle}
    (hown : s'.Part own) : own = s'.own ∨ s.Part own := by
  rcases part_iff.mp hown with rfl | ⟨entry, hentry, hpart⟩
  · exact .inl rfl
  · exact .inr (.pseudo (h ▸ hentry) hpart)

/-- The attached style brings in what it holds, and nothing else. -/
theorem part_of_attach {s style s' : ComputedStyle} (h : s.attach style = .ok s') {own : OwnStyle}
    (hown : s'.Part own) : s.Part own ∨ style.Part own := by
  unfold attach at h
  split at h
  · obtain rfl := Except.ok.inj h
    rcases part_iff.mp hown with rfl | ⟨entry, hentry, hpart⟩
    · exact .inl (.own s)
    · rcases mem_putPseudo hentry with rfl | hentry
      · exact .inr hpart
      · exact .inl (.pseudo hentry hpart)
  · cases h

theorem composed_inheritFrom {s parent : ComputedStyle} (hs : s.own.Composed P)
    (hparent : P parent.own) : (s.inheritFrom parent).own.Composed P := by
  intro g
  have hown := hs g
  cases g with
  | textEffects | typography => exact ⟨parent.own, hparent, rfl⟩
  | _ => exact hown

theorem composed_freshFor {initial : ComputedStyle} {parent : Option ComputedStyle}
    (hinitial : initial.own.Composed P) (hparent : ∀ s ∈ parent, P s.own) :
    (freshFor initial parent).own.Composed P := by
  cases parent with
  | none => exact hinitial
  | some parent => exact composed_inheritFrom hinitial (hparent parent rfl)

theorem composed_freshPseudo {initial : ComputedStyle} {owner : Option ComputedStyle}
    (hinitial : initial.own.Composed P) (howner : ∀ s ∈ owner, P s.own) (p : PseudoElement) :
    (freshPseudo initial p owner).own.Composed P :=
  composed_freshFor (hinitial.of_handle_eq fun g => by cases g <;> rfl) howner

theorem pseudos_freshFor (initial : ComputedStyle) (parent : Option ComputedStyle) :
    (freshFor initial parent).pseudos = initial.pseudos := by
  cases parent <;> rfl

theorem composed_compactWith {s similar : ComputedStyle} (hs : P s.own) (hsimilar : P similar.own) :
    (s.compactWith similar).own.Composed P := by
  have hadopt {α : Type} [BEq α] (mine theirs : Shared α) :
      mine.adopt theirs = mine ∨ mine.adopt theirs = theirs := by
    unfold Shared.adopt
    split
    · exact .inr rfl
    · exact .inl rfl
  have hhandle (g : Group) : (s.compactWith similar).own.handle g = s.own.handle g ∨
      (s.compactWith similar).own.handle g = similar.own.handle g := by
    cases g <;> exact hadopt _ _
  intro g
  rcases hhandle g with heq | heq
  · exact ⟨s.own, hs, heq⟩
  · exact ⟨similar.own, hsimilar, heq⟩

end ComputedStyle

namespace StyleContext

variable {P : OwnStyle → Prop} {c : StyleContext}

/-- A style is started from groups of the initial style and of the parent. -/
theorem composed_fresh (hinitial : P c.initial.own) (hparent : ∀ p ∈ c.parent, P p.own) :
    c.fresh.own.Composed P := by
  have hcomposed := OwnStyle.Composed.of_mem hinitial
  unfold StyleContext.fresh
  cases c.pseudo with
  | none => exact ComputedStyle.composed_freshFor hcomposed hparent
  | some p => exact ComputedStyle.composed_freshPseudo hcomposed hparent p

/-- The groups of a style that declarations come to are those of the initial style and of the
parent, or made under the stamp. -/
theorem made_apply {stamp : Stamp} {ds : List Declaration} {s : ComputedStyle}
    (hinitial : P c.initial.own) (hparent : ∀ p ∈ c.parent, P p.own)
    (h : c.apply stamp ds = .ok s) : s.own.Made P stamp := by
  have hfresh : c.fresh.own.Made P stamp := (composed_fresh hinitial hparent).made stamp
  obtain ⟨own, hown, rfl⟩ := exists_of_apply h
  have hmade : own.Made P stamp :=
    assigned_induction (fun _ _ _ _ _ a _ _ hs => hs.set a.field a.value) hfresh hown
  exact hmade.adjust c.isRoot

end StyleContext

end StyleEngine
