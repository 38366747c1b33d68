import StyleEngine.Proofs.Pass.Restyle
import StyleEngine.Proofs.Pass.Walk

/-!
# What a pass comes to

A pass fails before it has changed anything, and only if its element is cut off or has a parent
without a style. Otherwise it styles the elements that it meets, each once, stores for each the
difference from the style before, reports just that, and leaves alone all that is stored elsewhere.

This holds whatever the styler remembers, as long as declared values fit their properties.

## Main definitions

* `Styler.restyleInPlace`: a pass that acts on a styler and keeps what it has changed when it fails.
* `Styler.Outcome`: what a pass leaves and reports, in terms of the elements that it meets.

## Main statements

* `Styler.goes_restyle`: a pass is a walk over the elements that are met.
* `Styler.restyle_outcome`: when a pass fails, and what it comes to otherwise.
-/

namespace StyleEngine

variable {ε : Type}

/-! ## Fitting values -/

namespace Styler

open PassM

/-- Declarations that fit come to a style, under any stamp. -/
theorem exists_run_applyFresh (c : StyleContext) {es : List Entry}
    (hfits : ∀ entry ∈ es, entry.declaration.Fits) (p : PassState) :
    ∃ style p', (applyFresh c es).run p = .ok (style, p') ∧
      c.apply p.styler.stamp (es.map Entry.declaration) = .ok style := by
  obtain ⟨style, hstyle⟩ :=
    StyleContext.exists_apply (List.forall_mem_map.mpr hfits) c p.styler.stamp
  exact ⟨style, _, run_applyFresh_eq_ok_iff.mpr ⟨hstyle, rfl⟩, hstyle⟩

theorem exists_run_attachPseudos (c : StyleContext) {collected : Collected}
    (hfits : collected.Fitting) (ps : List PseudoElement) (style : ComputedStyle) (p : PassState) :
    ∃ out p', (attachPseudos c collected ps style).run p = .ok (out, p') := by
  induction ps generalizing style p with
  | nil => exact ⟨style, p, rfl⟩
  | cons q ps ih =>
    obtain ⟨pseudo, p', hrun, happly⟩ := exists_run_applyFresh
      { c with parent := some style, pseudo := some q, isRoot := false } (hfits (some q)) p
    obtain ⟨attached, hattached⟩ :=
      ComputedStyle.exists_attach style (StyleContext.styleType_apply rfl happly)
    have hrun : (applyFresh { c with parent := some style, pseudo := some q, isRoot := false }
        (collected.forPseudo q)).run p = .ok (pseudo, p') := hrun
    rw [attachPseudos, run_bind_of_ok hrun]
    split
    · rw [run_lift_bind hattached]
      exact ih attached p'
    · exact ih style p'

/-- An element with declarations that fit is styled, whatever the styler remembers. -/
theorem exists_run_styleElement {t : StyledTree ε} {root e : ε} (ht : t.Fitting root)
    (he : e ∈ (t.branch root).elements) (parent : Option ComputedStyle) (history : SiblingHistory)
    {p : PassState} (hindex : p.styler.index.Fitting) :
    ∃ out p', (styleElement t parent history e).run p = .ok (out, p') := by
  have hfits : (p.styler.collect t e).1.Fitting := hindex.collect ht he _
  obtain ⟨s, r⟩ := p
  rw [run_styleElement]
  generalize s.collect t e = found at hfits
  obtain ⟨collected, s'⟩ := found
  obtain ⟨bare, p₁, hbare, -⟩ :=
    exists_run_applyFresh (s'.contextOf (t.isRoot e) parent) (hfits none) ⟨s', r⟩
  obtain ⟨full, p₂, hfull⟩ := exists_run_attachPseudos (s'.contextOf (t.isRoot e) parent) hfits
    collected.pseudoElements bare p₁
  have hcompute : (computeStyle (s'.contextOf (t.isRoot e) parent) collected).run ⟨s', r⟩ =
      .ok (full, p₂) := (run_bind_of_ok hbare).trans hfull
  dsimp only
  rw [run_bind_of_ok hcompute]
  cases hconnected : t.isConnected e with
  | true =>
    obtain ⟨_, _, _, _, hrun, -⟩ := exists_finishElement hconnected parent history
      collected.matched s'.settings.sharing full p₂.styler p₂.report
    exact ⟨_, _, hrun⟩
  | false => exact ⟨_, _, run_finishElement_of_cut hconnected ..⟩

/-! ## Passes -/

/-- A pass that is begun is a walk over the elements that are met, or comes to a stop at one of
them. -/
theorem goes_restyle {t : StyledTree ε} (ht : t.Lawful) (hkeys : t.KeysDistinct) {s : Styler}
    {e : ε} {parent : Option ComputedStyle} (hconnected : t.isConnected e = true)
    (hparent : s.parentStyle t e = .ok parent) :
    (∃ s' r vs, s.restyle t e = .ok (s', r) ∧ vs.map (·.element) = t.met (t.branch e) ∧
      Walk t [] ⟨s.beginPass t e, .empty⟩ vs ⟨s', r⟩) ∨
    ∃ error vs p a, s.restyle t e = .error (.style error) ∧
      Stuck t [] ⟨s.beginPass t e, .empty⟩ (t.met (t.branch e)) error vs p a := by
  have htop : (t.branch e).element = e := ht.element_branch e
  have hready : Station.Ready t []
      ⟨(t.branch e).element, parent, .empty s.settings.scanLimit, ⟨s.beginPass t e, .empty⟩⟩ := by
    rw [htop]
    exact ⟨hparent, s.filtered_beginPass t e, .inl rfl, .inl rfl⟩
  have hgoes := goes_styleBranch ht hkeys (t.branch e) (by rw [htop]) hready
  unfold Goes at hgoes
  rw [Styler.restyle, if_pos hconnected, hparent]
  dsimp only
  split at hgoes
  · next history p hrun =>
    obtain ⟨vs, hvs, hwalk, -⟩ := hgoes
    rw [hrun]
    exact .inl ⟨p.styler, p.report, vs, rfl, hvs, hwalk⟩
  · next error hrun =>
    obtain ⟨vs, p, a, hstuck⟩ := hgoes
    rw [hrun]
    exact .inr ⟨error, vs, p, a, rfl, hstuck⟩

/-- With values that fit, a pass that is begun comes to an end. -/
theorem exists_restyle_walk {t : StyledTree ε} (ht : t.Lawful) (hkeys : t.KeysDistinct)
    {s : Styler} {e : ε} {parent : Option ComputedStyle} (hindex : s.index.Fitting)
    (hfits : t.Fitting e) (hconnected : t.isConnected e = true)
    (hparent : s.parentStyle t e = .ok parent) :
    ∃ s' r vs, s.restyle t e = .ok (s', r) ∧ vs.map (·.element) = t.met (t.branch e) ∧
      Walk t [] ⟨s.beginPass t e, .empty⟩ vs ⟨s', r⟩ := by
  rcases goes_restyle ht hkeys hconnected hparent with h | ⟨error, vs, p, a, -, hstuck⟩
  · exact h
  · have hendures : Enduring (fun _ => True) (·.index.Fitting) :=
      { collect := fun _ _ hs => hs
        store := fun _ _ _ _ _ _ hs => hs
        move := fun _ hs => hs }
    obtain ⟨hend, -⟩ := hendures.of_walk hstuck.walk hindex
    have hmet : a.element ∈ t.met (t.branch e) := hstuck.prefix_met.subset (by simp)
    obtain ⟨out, p', hrun⟩ := exists_run_styleElement hfits ((t.met_sublist _).subset hmet)
      a.parent a.history (hendures.of_idle hstuck.idle hend)
    have herror := hstuck.error
    rw [Station.style, hrun] at herror
    cases herror

end Styler

/-! ## Reports -/

/-- What meeting elements adds to a report. -/
theorem Report.foldl_meet (t : StyledTree ε) (before after : Std.HashMap ElementKey ComputedStyle)
    (l : List ε) (r : Report) :
    l.foldl (meet t before after) r =
      let found := (l.filter t.isConnected).map fun x =>
        (t.key x, differenceAt before after (t.key x))
      { styled := r.styled + found.length
        shared := r.shared
        discarded := r.discarded ++ (l.filter (!t.isConnected ·)).map t.key
        worst := (found.map Prod.snd).foldl max r.worst
        changed := r.changed ++ found.filter (·.2 ≠ .equal) } := by
  induction l generalizing r with
  | nil => simp
  | cons e l ih =>
    rw [List.foldl_cons, ih, meet]
    by_cases he : t.isConnected e = true
    · by_cases hequal : differenceAt before after (t.key e) = .equal
      · simp [he, hequal, record, Nat.add_assoc, Nat.add_comm 1]
      · simp [he, hequal, record, Nat.add_assoc, Nat.add_comm 1]
    · simp [he]

/-! ## Outcomes -/

namespace Styler

/-- The style of a parent is found unless the parent has none. -/
theorem parentStyle_eq_error_iff {s : Styler} {t : StyledTree ε} {e : ε} {error : RestyleError} :
    s.parentStyle t e = .error error ↔ ∃ p, t.parent? e = some p ∧ s.styles[t.key p]? = none ∧
      error = .unstyledParent (t.key p) (t.key e) := by
  unfold parentStyle
  cases t.parent? e with
  | none => exact ⟨nofun, nofun⟩
  | some p =>
    dsimp only
    constructor
    · intro h
      split at h
      · cases h
      · next hnone => exact ⟨p, rfl, hnone, (Except.error.inj h).symm⟩
    · rintro ⟨_, ⟨⟩, hnone, rfl⟩
      rw [hnone]

/-- What a pass over `e` leaves of a styler, and what it reports. -/
structure Outcome (t : StyledTree ε) (e : ε) (s s' : Styler) (r : Report) : Prop where
  /-- Every element that is met is styled once, in document order, and what it comes to is
  stored. -/
  walk : (t.met (t.branch e)).Nodup ∧ ∃ vs, vs.map (·.element) = t.met (t.branch e) ∧
    Walk t [] ⟨s.beginPass t e, .empty⟩ vs ⟨s', r⟩ ∧
    ∀ v ∈ vs, s'.styles[t.key v.element]? = v.out.map Prod.fst
  /-- An element of the document gets a style, and the difference from the style that it had. -/
  committed : ∀ x ∈ t.met (t.branch e), t.isConnected x = true → ∃ style,
    s'.styles[t.key x]? = some style ∧ s'.differences[t.key x]? =
      some ((s.styles[t.key x]?).elim .containingBlockLayout (·.difference style))
  forgotten : ∀ x ∈ t.met (t.branch e), t.isConnected x = false →
    s'.styles[t.key x]? = none ∧ s'.differences[t.key x]? = none
  kept : ∀ key ∉ (t.met (t.branch e)).map t.key,
    s'.styles[key]? = s.styles[key]? ∧ s'.differences[key]? = s.differences[key]?
  discarded : r.discarded = ((t.met (t.branch e)).filter (!t.isConnected ·)).map t.key
  /-- The elements that were styled and their differences, in document order. -/
  reported : ∃ found : List (ElementKey × Difference),
    found.map Prod.fst = ((t.met (t.branch e)).filter t.isConnected).map t.key ∧
    (∀ entry ∈ found, s'.differences[entry.1]? = some entry.2) ∧
    r.styled = found.length ∧ r.changed = found.filter (·.2 ≠ .equal) ∧
    r.worst = (found.map Prod.snd).foldl max .equal

/-- A pass over a tree with keys that tell elements apart has such an outcome. -/
theorem outcome_of_walk {t : StyledTree ε} (ht : t.Lawful) (hkeys : t.KeysDistinct)
    {s s' : Styler} {r : Report} {e : ε} (hrun : s.restyle t e = .ok (s', r))
    {vs : List (Visit ε)} (hvs : vs.map (·.element) = t.met (t.branch e))
    (hwalk : Walk t [] ⟨s.beginPass t e, .empty⟩ vs ⟨s', r⟩) : Outcome t e s s' r := by
  have hdistinct := ht.nodup_keys_met hkeys e
  have hstored := hwalk.stored (by rwa [← hvs, List.map_map] at hdistinct)
  have hrecorded := recorded_restyle hdistinct hrun
  have hreport := hrecorded.report
  rw [Report.foldl_meet] at hreport
  refine ⟨⟨ht.nodup_met e, vs, hvs, hwalk, hstored⟩, fun x hx hconnected => ?_, hrecorded.forgotten,
    hrecorded.kept, ?_, ?_⟩
  · obtain ⟨hstored, hdifference⟩ := hrecorded.committed x hx hconnected
    obtain ⟨style, hstyle⟩ := Option.isSome_iff_exists.mp hstored
    refine ⟨style, hstyle, hdifference.trans (congrArg some ?_)⟩
    rw [differenceAt, hstyle]
    cases s.styles[t.key x]? <;> rfl
  · exact congrArg Report.discarded hreport
  · refine ⟨_, ?_, ?_, ?_, congrArg Report.changed hreport, congrArg Report.worst hreport⟩
    · simp
    · rintro entry hentry
      obtain ⟨x, hx, rfl⟩ := List.mem_map.mp hentry
      obtain ⟨hx, hconnected⟩ := List.mem_filter.mp hx
      exact (hrecorded.committed x hx hconnected).2
    · exact (congrArg Report.styled hreport).trans (Nat.zero_add _)

/-- A pass as it acts on the styler that it is called on: the answer, and the styler afterwards. A
pass that comes to a stop at a declaration has been begun. -/
def restyleInPlace (s : Styler) (t : StyledTree ε) (e : ε) :
    Except RestyleError Report × Styler :=
  if t.isConnected e then
    match s.parentStyle t e with
    | .error error => (.error error, s)
    | .ok parent =>
      let begun := s.beginPass t e
      match (styleBranch t parent (.empty s.settings.scanLimit) (t.branch e)).run
          ⟨begun, .empty⟩ with
      | .ok (_, p) => (.ok p.report, p.styler)
      | .error error => (.error (.style error), begun)
  else (.error (.detached (t.key e)), s)

/-- Acting on a styler comes to the same as making another one. -/
theorem restyleInPlace_eq (s : Styler) (t : StyledTree ε) (e : ε) :
    s.restyleInPlace t e =
      match s.restyle t e with
      | .ok (s', r) => (.ok r, s')
      | .error (.style error) => (.error (.style error), s.beginPass t e)
      | .error error => (.error error, s) := by
  unfold restyleInPlace restyle
  split
  · cases hparent : s.parentStyle t e with
    | error error =>
      obtain ⟨p, -, -, rfl⟩ := parentStyle_eq_error_iff.mp hparent
      rfl
    | ok parent =>
      dsimp only
      cases (styleBranch t parent (.empty s.settings.scanLimit) (t.branch e)).run
        ⟨s.beginPass t e, .empty⟩ <;> rfl
  · rfl

/-- A pass over an element fails if the element is cut off, or has a parent without a style, and
only then; and then it has changed nothing. Otherwise it meets the elements of the branch that are
not below one that is cut off, and has the outcome that these determine. -/
theorem restyle_outcome {s : Styler} {t : StyledTree ε} {e : ε} (ht : t.Lawful)
    (hkeys : t.KeysDistinct) (hindex : s.index.Fitting) (hfits : t.Fitting e) :
    ((∃ error, s.restyle t e = .error error) ↔
      t.isConnected e = false ∨ ∃ p, t.parent? e = some p ∧ s.styles[t.key p]? = none) ∧
    (∀ error, s.restyle t e = .error error → s.restyleInPlace t e = (.error error, s)) ∧
    ∀ s' r, s.restyle t e = .ok (s', r) →
      s.restyleInPlace t e = (.ok r, s') ∧ Outcome t e s s' r := by
  by_cases hconnected : t.isConnected e = true
  · cases hparent : s.parentStyle t e with
    | error error =>
      obtain ⟨p, hp, hnone, rfl⟩ := parentStyle_eq_error_iff.mp hparent
      have hrun : s.restyle t e = .error (.unstyledParent (t.key p) (t.key e)) := by
        rw [restyle, if_pos hconnected, hparent]
      rw [restyleInPlace_eq, hrun]
      refine ⟨⟨fun _ => .inr ⟨p, hp, hnone⟩, fun _ => ⟨_, rfl⟩⟩, ?_, ?_⟩
      · rintro error ⟨⟩
        rfl
      · rintro s' r ⟨⟩
    | ok parent =>
      obtain ⟨s', r, vs, hrun, hvs, hwalk⟩ :=
        exists_restyle_walk ht hkeys hindex hfits hconnected hparent
      have houtcome := outcome_of_walk ht hkeys hrun hvs hwalk
      rw [restyleInPlace_eq, hrun]
      refine ⟨⟨?_, ?_⟩, ?_, ?_⟩
      · rintro ⟨error, ⟨⟩⟩
      · rintro (hcut | ⟨p, hp, hnone⟩)
        · rw [hconnected] at hcut
          cases hcut
        · have herror := parentStyle_eq_error_iff.mpr ⟨p, hp, hnone, rfl⟩
          rw [hparent] at herror
          cases herror
      · rintro error ⟨⟩
      · rintro s'' r' ⟨⟩
        exact ⟨rfl, houtcome⟩
  · have hrun : s.restyle t e = .error (.detached (t.key e)) := by
      rw [restyle, if_neg hconnected]
    rw [restyleInPlace_eq, hrun]
    refine ⟨⟨fun _ => .inl (Bool.eq_false_iff.mpr hconnected), fun _ => ⟨_, rfl⟩⟩, ?_, ?_⟩
    · rintro error ⟨⟩
      rfl
    · rintro s' r ⟨⟩

/-- A family whose younger child is cut off. -/
theorem restyle_outcome_family :
    let t := { Relative.tree fun _ => .none with isConnected := fun e => e ≠ .younger }
    let s := create .default .approximate Relative.sheets .screen
    ∃ s' r, s.restyle t .parent = .ok (s', r) ∧ Outcome t .parent s s' r ∧ r.styled = 2 ∧
      r.discarded = [2] := by
  intro t s
  have ht : t.Lawful := { Relative.lawful_tree fun _ => .none with }
  have hfits : t.Fitting .parent := Relative.fitting_tree fun _ => .none
  obtain ⟨hfails, -, houtcome⟩ := restyle_outcome (s := s) ht (Relative.keysDistinct_tree _)
    (RuleIndex.fitting_build Relative.fitting_sheets) hfits
  cases hrun : s.restyle t .parent with
  | error error =>
    rcases hfails.mp ⟨error, hrun⟩ with h | ⟨p, h, -⟩ <;> cases h
  | ok result =>
    obtain ⟨s', r⟩ := result
    obtain ⟨-, hresult⟩ := houtcome s' r hrun
    obtain ⟨found, hfound, -, hstyled, -, -⟩ := hresult.reported
    have hlength := congrArg List.length hfound
    rw [List.length_map] at hlength
    exact ⟨s', r, rfl, hresult, hstyled.trans hlength, hresult.discarded⟩

end Styler

end StyleEngine
