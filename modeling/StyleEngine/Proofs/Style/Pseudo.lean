import StyleEngine.Proofs.Style.Pool

/-!
# Styles of pseudo-elements as a map

The styles of pseudo-elements stand in a list that is searched, written to in place, added to at the
end and shortened anywhere. No pseudo-element ever has two places in it, so the list is a map that
remembers in which order its keys came in.

## Main definitions

* `ComputedStyle.Keyed`: a list with at most one style for each pseudo-element.
* `PseudoCall`: a change of the styles of pseudo-elements.
* `ComputedStyle.MapLaws`: what the operations on a style come to as those on a map.

## Main statements

* `ComputedStyle.Keyed.call`, `ComputedStyle.Keyed.callAll`: what one call does, and any number.
* `StylePool.mapped_run`: all styles that are ever made have such lists.
-/

namespace StyleEngine

namespace ComputedStyle

variable {s s' style : ComputedStyle} {p : PseudoElement}
  {l : List (PseudoElement × ComputedStyle)}

/-! ## The list -/

/-- Each pseudo-element has at most one style in the list, and this is a style for it. -/
structure Keyed (l : List (PseudoElement × ComputedStyle)) : Prop where
  nodup : (l.map Prod.fst).Nodup
  typed : ∀ entry ∈ l, entry.2.styleType = some entry.1

theorem pseudo?_isSome_iff : (s.pseudo? p).isSome ↔ p ∈ s.pseudos.map Prod.fst := by
  simp [pseudo?]

theorem putPseudo_of_notMem (hp : p ∉ l.map Prod.fst) :
    putPseudo p style l = l ++ [(p, style)] := by
  induction l with
  | nil => rfl
  | cons entry l ih =>
    rw [List.map_cons, List.mem_cons, not_or] at hp
    rw [putPseudo, if_neg (Ne.symm hp.1), ih hp.2, List.cons_append]

/-- Nothing behind the head of the list is for the pseudo-element of the head. -/
theorem ne_of_nodup_keys {entry : PseudoElement × ComputedStyle}
    (hnodup : ((entry :: l).map Prod.fst).Nodup) : ∀ other ∈ l, other.1 ≠ entry.1 :=
  fun _ hother heq => (List.nodup_cons.mp hnodup).1 (heq ▸ List.mem_map_of_mem hother)

/-- A style is put where the first one for the pseudo-element is, and there is no second one. -/
theorem putPseudo_of_mem (hnodup : (l.map Prod.fst).Nodup) (hp : p ∈ l.map Prod.fst) :
    putPseudo p style l = l.map fun entry => if entry.1 = p then (p, style) else entry := by
  induction l with
  | nil => cases hp
  | cons entry l ih =>
    rw [putPseudo, List.map_cons]
    split
    · next h =>
      subst h
      rw [List.map_congr_left fun other hother => if_neg (ne_of_nodup_keys hnodup other hother),
        List.map_id']
    · next h =>
      rw [ih (List.nodup_cons.mp hnodup).2 ((List.mem_cons.mp hp).resolve_left (Ne.symm h))]

theorem find?_putPseudo (q : PseudoElement) :
    (putPseudo p style l).find? (·.1 = q) =
      if q = p then some (p, style) else l.find? (·.1 = q) := by
  induction l with
  | nil => grind [putPseudo]
  | cons entry l ih => grind [putPseudo]

theorem eraseP_eq_filter (hnodup : (l.map Prod.fst).Nodup) :
    l.eraseP (·.1 = p) = l.filter (·.1 ≠ p) := by
  induction l with
  | nil => rfl
  | cons entry l ih =>
    by_cases h : entry.1 = p
    · subst h
      rw [List.eraseP_cons_of_pos (by simp), List.filter_cons_of_neg (by simp)]
      exact (List.filter_eq_self.mpr (by simpa using ne_of_nodup_keys hnodup)).symm
    · simp [h, ih (List.nodup_cons.mp hnodup).2]

/-- Taking a style out looks it up and leaves the list without it. -/
theorem takeOut_eq (s : ComputedStyle) (p : PseudoElement) :
    s.takeOut p = (s.pseudo? p, s.detach p) := by
  rw [takeOut, pseudo?, detach, List.eraseP_eq_eraseIdx]
  cases h : s.pseudos.findIdx? (·.1 = p) with
  | none =>
    have hnone : s.pseudos.find? (·.1 = p) = none := by simpa using h
    rw [hnone]
    cases s
    rfl
  | some i =>
    rw [List.find?_eq_getElem?_findIdx, (List.findIdx?_eq_some_iff_findIdx_eq.mp h).2]

theorem Keyed.put (h : Keyed l) (hstyle : style.styleType = some p) :
    Keyed (putPseudo p style l) := by
  refine ⟨?_, fun entry hentry => ?_⟩
  · by_cases hp : p ∈ l.map Prod.fst
    · have hkeys : (putPseudo p style l).map Prod.fst = l.map Prod.fst := by
        rw [putPseudo_of_mem h.nodup hp, List.map_map]
        refine List.map_congr_left fun entry _ => ?_
        grind
      rw [hkeys]
      exact h.nodup
    · rw [putPseudo_of_notMem hp, List.map_append]
      exact h.nodup.append (List.nodup_singleton p) (by simpa using hp)
  · rcases mem_putPseudo hentry with rfl | hentry
    · exact hstyle
    · exact h.typed entry hentry

theorem Keyed.detach (h : Keyed s.pseudos) (p : PseudoElement) : Keyed (s.detach p).pseudos where
  nodup := h.nodup.sublist (List.eraseP_sublist.map Prod.fst)
  typed entry hentry := h.typed entry (List.eraseP_subset hentry)

/-! ## Calls -/

theorem attach_eq (hstyle : style.styleType = some p) :
    s.attach style = .ok { s with pseudos := putPseudo p style s.pseudos } := by
  rw [attach, hstyle]

end ComputedStyle

/-- A change of the styles of pseudo-elements. -/
inductive PseudoCall
  /-- Attaches a style for a pseudo-element. -/
  | add (p : PseudoElement) (style : ComputedStyle) (typed : style.styleType = some p)
  /-- Takes the style of a pseudo-element out. -/
  | remove (p : PseudoElement)

namespace PseudoCall

/-- The pseudo-element that the call is about. -/
def pseudo : PseudoCall → PseudoElement
  | .add p _ _ | .remove p => p

/-- The style that the pseudo-element has after the call. -/
def leaves : PseudoCall → Option ComputedStyle
  | .add _ style _ => some style
  | .remove _ => none

end PseudoCall

namespace ComputedStyle

variable {s : ComputedStyle}

/-- The style after a call. -/
def call (s : ComputedStyle) : PseudoCall → Except StyleError ComputedStyle
  | .add _ style _ => s.attach style
  | .remove p => .ok (s.takeOut p).2

def callAll (s : ComputedStyle) (calls : List PseudoCall) : Except StyleError ComputedStyle :=
  calls.foldlM call s

/-- A call is accepted, keeps the list a map and changes it at one key. -/
theorem Keyed.call (h : Keyed s.pseudos) (c : PseudoCall) :
    ∃ s', s.call c = .ok s' ∧ s'.own = s.own ∧ Keyed s'.pseudos ∧
      s'.pseudo? = Function.update s.pseudo? c.pseudo c.leaves := by
  cases c with
  | add p style typed =>
    refine ⟨_, attach_eq typed, rfl, h.put typed, funext fun q => ?_⟩
    rw [pseudo?, find?_putPseudo, Function.update_apply, PseudoCall.pseudo]
    split <;> rfl
  | remove p =>
    refine ⟨s.detach p, by rw [ComputedStyle.call, takeOut_eq], rfl, h.detach p,
      funext fun q => ?_⟩
    rw [pseudo?, ComputedStyle.detach, eraseP_eq_filter h.nodup, List.find?_filter,
      Function.update_apply, PseudoCall.pseudo]
    split
    · next h => simp [h, PseudoCall.leaves]
    · next h =>
      rw [pseudo?]
      grind

/-- After any number of calls the style for a pseudo-element is what the last call about it left. -/
theorem Keyed.callAll (h : Keyed s.pseudos) (calls : List PseudoCall) :
    ∃ s', s.callAll calls = .ok s' ∧ s'.own = s.own ∧ Keyed s'.pseudos ∧
      ∀ p, s'.pseudo? p =
        (calls.reverse.find? (·.pseudo = p)).elim (s.pseudo? p) PseudoCall.leaves := by
  induction calls generalizing s with
  | nil => exact ⟨s, rfl, rfl, h, fun _ => rfl⟩
  | cons c calls ih =>
    obtain ⟨s₁, hcall, hown₁, hkeyed₁, hpseudo₁⟩ := h.call c
    obtain ⟨s', hcalls, hown, hkeyed, hpseudo⟩ := ih hkeyed₁
    refine ⟨s', ?_, hown.trans hown₁, hkeyed, fun p => ?_⟩
    · rw [ComputedStyle.callAll, List.foldlM_cons, hcall]
      exact hcalls
    · rw [hpseudo, hpseudo₁, List.reverse_cons, List.find?_append, Function.update_apply]
      cases calls.reverse.find? (·.pseudo = p) with
      | some c' => rfl
      | none =>
        by_cases hp : p = c.pseudo
        · simp [hp]
        · simp [hp, Ne.symm hp]

end ComputedStyle

/-! ## The laws of a map -/

/-- The list is a map: a style is looked up and taken out under its key, attached in the place of
the one before it, or else at the end, and all other entries stay where they are. -/
structure ComputedStyle.MapLaws (s : ComputedStyle) : Prop where
  keyed : Keyed s.pseudos
  takeOut : ∀ p, s.takeOut p = (s.pseudo? p, { s with pseudos := s.pseudos.filter (·.1 ≠ p) })
  replace : ∀ p style, style.styleType = some p → (s.pseudo? p).isSome →
    s.attach style = .ok
      { s with pseudos := s.pseudos.map fun entry => if entry.1 = p then (p, style) else entry }
  append : ∀ p style, style.styleType = some p → s.pseudo? p = none →
    s.attach style = .ok { s with pseudos := s.pseudos ++ [(p, style)] }

theorem ComputedStyle.Keyed.mapLaws {s : ComputedStyle} (h : Keyed s.pseudos) : s.MapLaws where
  keyed := h
  takeOut p := by rw [takeOut_eq, ComputedStyle.detach, eraseP_eq_filter h.nodup]
  replace p style hstyle hp := by
    rw [attach_eq hstyle, putPseudo_of_mem h.nodup (pseudo?_isSome_iff.mp hp)]
  append p style hstyle hp := by
    have hnotMem : p ∉ s.pseudos.map Prod.fst := by simp [← pseudo?_isSome_iff, hp]
    rw [attach_eq hstyle, putPseudo_of_notMem hnotMem]

/-! ## Styles in a pool -/

/-- The styles of pseudo-elements are a map, and so they are in each of these styles. -/
inductive ComputedStyle.Mapped : ComputedStyle → Prop
  | intro {s : ComputedStyle} (keyed : Keyed s.pseudos)
    (inner : ∀ entry ∈ s.pseudos, Mapped entry.2) : Mapped s

namespace ComputedStyle

variable {s s' style : ComputedStyle}

theorem Mapped.of_pseudos_eq (h : s.Mapped) (heq : s'.pseudos = s.pseudos) : s'.Mapped := by
  obtain ⟨keyed, inner⟩ := h
  exact ⟨heq ▸ keyed, heq ▸ inner⟩

theorem Mapped.attach (h : s.Mapped) (hstyle : style.Mapped) (hattach : s.attach style = .ok s') :
    s'.Mapped := by
  obtain ⟨keyed, inner⟩ := h
  rw [ComputedStyle.attach] at hattach
  split at hattach
  · next p hp =>
    obtain rfl := Except.ok.inj hattach
    refine ⟨keyed.put hp, fun entry hentry => ?_⟩
    rcases mem_putPseudo hentry with rfl | hentry
    · exact hstyle
    · exact inner entry hentry
  · cases hattach

theorem Mapped.detach (h : s.Mapped) (p : PseudoElement) : (s.detach p).Mapped := by
  obtain ⟨keyed, inner⟩ := h
  exact ⟨keyed.detach p, fun entry hentry => inner entry (List.eraseP_subset hentry)⟩

theorem Mapped.pseudo? (h : s.Mapped) (hstyle : s.pseudo? p = some style) : style.Mapped := by
  obtain ⟨-, inner⟩ := h
  obtain ⟨entry, hentry, rfl⟩ := mem_of_pseudo? hstyle
  exact inner entry hentry

end ComputedStyle

namespace StylePool

open ComputedStyle

variable {p : StylePool} {i : Nat} {s : ComputedStyle}

/-- All styles of the pool have maps of pseudo-elements. -/
def Mapped (p : StylePool) : Prop :=
  ∀ s ∈ p.styles, s.Mapped

theorem mem_styles_iff : s ∈ p.styles ↔ s = p.initial ∨ some s ∈ p.slots := by
  rw [styles, List.mem_cons, List.reduceOption_mem_iff]

theorem Mapped.style? (h : p.Mapped) (hs : p.style? i = some s) : s.Mapped :=
  h s (mem_styles_iff.mpr (.inr (List.mem_of_getElem? (Option.join_eq_some_iff.mp hs))))

theorem Mapped.push (h : p.Mapped) (hs : s.Mapped) : (p.push s).Mapped := by
  intro s' hs'
  rcases mem_styles_iff.mp hs' with rfl | hslot
  · exact h _ List.mem_cons_self
  · rcases List.mem_append.mp hslot with hslot | hslot
    · exact h s' (mem_styles_iff.mpr (.inr hslot))
    · obtain rfl : s' = s := by simpa using hslot
      exact hs

theorem Mapped.put (h : p.Mapped) {o : Option ComputedStyle} (ho : ∀ s ∈ o, s.Mapped) :
    (p.put i o).Mapped := by
  intro s hs
  rcases mem_styles_iff.mp hs with rfl | hslot
  · exact h _ List.mem_cons_self
  · rcases List.mem_or_eq_of_mem_set hslot with hslot | rfl
    · exact h s (mem_styles_iff.mpr (.inr hslot))
    · exact ho s rfl

theorem Mapped.update (h : p.Mapped) {f : ComputedStyle → ComputedStyle}
    (hf : ∀ s, s.Mapped → (f s).Mapped) : (p.update i f).Mapped := by
  unfold StylePool.update
  split
  · next s hs => exact h.put fun _ hs' => Option.mem_some.mp hs' ▸ hf s (h.style? hs)
  · exact h

/-- What an operation does keeps the maps: no style is made with a list of its own. -/
theorem Mapped.of_acts (h : p.Mapped) {l : List Nat} {p' : StylePool} (hacts : p.Acts l p') :
    p'.Mapped := by
  cases hacts with
  | idle => exact h
  | make _ bare => exact h.push ((h p.initial List.mem_cons_self).of_pseudos_eq bare)
  | copy found => exact h.push (h.style? found)
  | change kept => exact h.update fun s hs => hs.of_pseudos_eq (kept s)
  | @moveIn i j style found =>
    have hput : (p.put j none).Mapped := h.put (by simp)
    refine hput.update fun s hs => ?_
    cases hattach : s.attach style with
    | error e => exact hs
    | ok s' => exact hs.attach (h.style? found) hattach
  | moveOut found attached =>
    exact (h.update fun s hs => hs.detach _).push ((h.style? found).pseudo? attached)
  | drop => exact h.put (by simp)

theorem mapped_run (h : p.Mapped) (hsound : p.Sound) (ops : List StyleOp) :
    (p.run ops).Mapped := by
  induction ops generalizing p with
  | nil => exact h
  | cons op ops ih =>
    have hmapped : (p.act op).Mapped := h.of_acts (hsound.acts op)
    exact ih hmapped (hsound.step op)

theorem mapped_start (mediumPx : Float32) : (start mediumPx).Mapped := by
  intro s hs
  obtain rfl := List.mem_singleton.mp hs
  exact ⟨⟨List.nodup_nil, nofun⟩, nofun⟩

/-- However a style came about, calls on it are accepted and leave each pseudo-element with one
style at most, under its own key. A pseudo-element has the style that was added for it last, unless
this was removed, and nothing but the calls about it matters for it. -/
theorem exists_callAll (mediumPx : Float32) (ops : List StyleOp) {s : ComputedStyle}
    (hs : s ∈ ((start mediumPx).run ops).styles) (calls : List PseudoCall) :
    ∃ s', s.callAll calls = .ok s' ∧ s'.own = s.own ∧ s'.MapLaws ∧
      ∀ p, s'.pseudo? p =
        (calls.reverse.find? (·.pseudo = p)).elim (s.pseudo? p) PseudoCall.leaves := by
  obtain ⟨keyed, -⟩ := mapped_run (mapped_start mediumPx) (sound_start mediumPx) ops s hs
  obtain ⟨s', hcalls, hown, hkeyed, hpseudo⟩ := keyed.callAll calls
  exact ⟨s', hcalls, hown, hkeyed.mapLaws, hpseudo⟩

/-- A style is made and given a style for `before`. This is removed between two additions of a style
for `after`. -/
theorem exists_callAll_before_after :
    let initial := ComputedStyle.initial 0 16
    let before := initial.freshPseudo .before (some initial)
    let after := initial.freshPseudo .after (some initial)
    let s : ComputedStyle := { initial with pseudos := [(.before, before)] }
    let ops : List StyleOp := [.fresh, .freshPseudo .before 0, .addPseudo 0 1]
    let calls : List PseudoCall :=
      [.add .after after rfl, .remove .before, .add .after (initial.freshPseudo .after none) rfl]
    s ∈ ((start 16).run ops).styles ∧
      ∃ s', s.callAll calls = .ok s' ∧ s'.own = s.own ∧ s'.MapLaws ∧
        ∀ p, s'.pseudo? p =
          (calls.reverse.find? (·.pseudo = p)).elim (s.pseudo? p) PseudoCall.leaves := by
  intro initial before after s ops calls
  have hs : s ∈ ((start 16).run ops).styles := List.mem_cons_of_mem _ List.mem_cons_self
  exact ⟨hs, exists_callAll 16 ops hs calls⟩

end StylePool

end StyleEngine
