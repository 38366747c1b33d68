import StyleEngine.Proofs.Pass.Outcome
import StyleEngine.Proofs.Pass.Visit

/-!
# Styles along the way of a pass

A pass stores for each element that it meets a style with the plain form of the one at the end of
the naive way down, from the ground that the pass starts on. The siblings that it remembers at an
element are siblings before it that it has visited, each under its own signature.

## Main definitions

* `PassInput.Along`: what the visits of a pass have come to so far.
* `PassInput.SharesWith`: an element that took over groups of another.

## Main statements

* `PassInput.along_restyle`: a pass comes to what the naive ways say, or fails where one of them
  does.
* `PassInput.Along.exists_counted`: the elements that a pass counts as sharing.
-/

namespace StyleEngine

open NaivePass (Ground)

variable {ε : Type}

/-- What the visits of the `past` have come to, in a pass over `e` that started on the ground
`start`. -/
structure PassInput.Along (i : PassInput ε) (e : ε) (start : Ground) (past : List (Visit ε))
    (p : PassState) : Prop where
  underway : i.Underway p.styler
  first : past = [] → p.styler.parentStyle i.tree e = .ok start.parent ∧
    p.styler.rootFontSize = start.rootFontSize
  below : ∀ u ∈ past, i.tree.ancestors e <:+ i.tree.ancestors u.element
  came : ∀ u ∈ past, ∃ ground, i.naive.groundAt start e u.element = .ok ground ∧
    ∀ {style : ComputedStyle} {history : SiblingHistory}, u.out = some (style, history) →
      Ground.plainForm ⟨some style, p.styler.rootFontSize⟩ = ground.plainForm
  /-- Siblings are remembered under their signatures. -/
  remembered : ∀ u ∈ past, ∀ {style : ComputedStyle} {history : SiblingHistory},
    u.out = some (style, history) → ∀ entry ∈ history.entries, ∃ w ∈ past,
      w.element ∈ u.element :: i.tree.preceding u.element ∧
        entry = (i.tree.key w.element, i.index.signature i.tree w.element)

namespace PassInput.Along

variable {i : PassInput ε} {e : ε} {start : Ground} {past vs : List (Visit ε)} {p p' : PassState}
  {a : Station ε}

theorem idle (h : i.Along e start past p) (hidle : p.Idle p') : i.Along e start past p' := by
  obtain ⟨dependencies, filter, rfl⟩ := hidle
  exact
    { h with
      underway := { h.underway with }
      first := h.first
      came := h.came }

/-- What a pass brings along to an element is what the naive way down to it comes to. -/
theorem ground (ht : i.tree.Lawful) (hfair : i.metrics.Fair) (h : i.Along e start past a.state)
    (hready : a.Ready i.tree past) (hfirst : past = [] → a.element = e) :
    i.tree.ancestors e <:+ i.tree.ancestors a.element ∧
      (i.naive.groundAt start e a.element).map Ground.plainForm =
        (i.naive.step a.element a.ground).map Ground.plainForm := by
  rcases hready.below with hpast | ⟨v, hv, hparent, style, history, hout, hstyle⟩
  · obtain ⟨hparent, hsize⟩ := h.first hpast
    have helement := hfirst hpast
    have hparent' := hready.parent
    rw [helement, hparent] at hparent'
    have hground : a.ground = start := by
      rw [Station.ground, ← Except.ok.inj hparent', hsize]
    rw [helement, hground, NaivePass.groundAt_self]
    exact ⟨List.suffix_refl _, rfl⟩
  · obtain ⟨ground, hground, hplain⟩ := h.came v hv
    have hup := ht.ancestors_of_parent? hparent
    have hbelow := h.below v hv
    have hground' : a.ground = ⟨some style, a.state.styler.rootFontSize⟩ := by
      rw [Station.ground, hstyle]
    have halike : i.naive.AlikeAt i.naive a.element a.element := .refl hfair
    refine ⟨hup ▸ hbelow.trans (List.suffix_cons _ _), ?_⟩
    rw [i.naive.groundAt_child start hup hbelow, bind_of_eq_ok hground, hground']
    exact halike.plainForm_step (hplain hout).symm

/-- The siblings that are remembered at an element have been visited, and stand before it. -/
theorem visited (ht : i.tree.Lawful) (h : i.Along e start past p) (hready : a.Ready i.tree past) :
    ∀ entry ∈ a.history.entries, ∃ w ∈ past, w.element ∈ i.tree.preceding a.element ∧
      entry = (i.tree.key w.element, i.index.signature i.tree w.element) := by
  intro entry hentry
  rcases hready.history with hnone | ⟨u, hu, hbefore, style, hout⟩
  · simp [hnone] at hentry
  · obtain ⟨w, hw, hmem, rfl⟩ := h.remembered u hu hout entry hentry
    exact ⟨w, hw, (ht.cons_preceding_suffix hbefore).subset hmem, rfl⟩

/-- A visit adds what the naive way down to the element says. -/
theorem visit (ht : i.tree.Lawful) (hfair : i.metrics.Fair) {v : Visit ε}
    (h : i.Along e start past v.state) (hready : v.toStation.Ready i.tree past)
    (hfirst : past = [] → v.element = e) (hstyle : v.style i.tree = .ok (v.out, v.after)) :
    i.Along e start (v :: past) v.after ∧
      (v.after.report.shared = v.state.report.shared ∨
        v.after.report.shared = v.state.report.shared + 1 ∧ v.Shares i) := by
  obtain ⟨a, out, after⟩ := v
  obtain ⟨hbelow, hground⟩ := h.ground ht hfair hready hfirst
  rcases h.underway.visit ht hfair hready.filter with
    ⟨error, herror, -⟩ | ⟨ground, out', after', hstyle', hstep, hcomes⟩
  · rw [hstyle] at herror
    cases herror
  obtain ⟨rfl, rfl⟩ := Prod.mk.inj (Except.ok.inj (hstyle.symm.trans hstyle'))
  rw [hstep] at hground
  obtain ⟨ground', hground', hplain⟩ := exists_of_map_eq_ok hground
  -- The font size of the root changes at the first visit only.
  have hsize : past ≠ [] → after.styler.rootFontSize = a.state.styler.rootFontSize := by
    intro hpast
    obtain ⟨w, -, hparent, -⟩ := hready.below.resolve_left hpast
    refine hcomes.rootFontSize ?_
    rw [ElementTree.isRoot, ht.ancestors_of_parent? hparent, List.isEmpty_cons]
  refine ⟨?_, hcomes.shared⟩
  exact
    { underway := hcomes.underway
      first := by simp
      below := List.forall_mem_cons.mpr ⟨hbelow, h.below⟩
      came := by
        refine List.forall_mem_cons.mpr ⟨⟨ground', hground', fun hout => ?_⟩, fun u hu => ?_⟩
        · exact (hcomes.style hout).trans hplain.symm
        · rw [hsize (List.ne_nil_of_mem hu)]
          exact h.came u hu
      remembered := by
        refine List.forall_mem_cons.mpr
          ⟨fun hout entry hentry => ?_, fun u hu _ _ hout entry hentry => ?_⟩
        · rcases hcomes.remembered hout entry hentry with rfl | hentry
          · exact ⟨_, List.mem_cons_self, List.mem_cons_self, rfl⟩
          · obtain ⟨w, hw, hmem, rfl⟩ := h.visited ht hready entry hentry
            exact ⟨w, List.mem_cons_of_mem _ hw, List.mem_cons_of_mem _ hmem, rfl⟩
        · obtain ⟨w, hw, hrest⟩ := h.remembered u hu hout entry hentry
          exact ⟨w, List.mem_cons_of_mem _ hw, hrest⟩ }

/-- A walk adds what the naive ways down to its elements say. -/
theorem walk (ht : i.tree.Lawful) (hfair : i.metrics.Fair) (h : i.Along e start past p)
    (hwalk : Walk i.tree past p vs p') (hfirst : past = [] → ∀ v ∈ vs.head?, v.element = e) :
    i.Along e start (vs.reverse ++ past) p' := by
  induction hwalk with
  | stop hidle => exact h.idle hidle
  | @visit past vs p p' v hidle hready hstyle _ ih =>
    have hvisit := (h.idle hidle).visit ht hfair hready (fun hpast => hfirst hpast v rfl) hstyle
    simpa using ih hvisit.1 (by simp)

end PassInput.Along

/-! ## Sharing -/

/-- `x` took over groups of `y`, a sibling before it with an equal signature. -/
structure PassInput.SharesWith (i : PassInput ε) (s : Styler) (x y : ε) : Prop where
  preceding : y ∈ i.tree.preceding x
  signature : (i.index.signature i.tree y == i.index.signature i.tree x) = true
  styles : ∃ own similar : ComputedStyle, s.styles[i.tree.key x]? = some (own.compactWith similar) ∧
    s.styles[i.tree.key y]? = some similar

namespace PassInput.Along

variable {i : PassInput ε} {e : ε} {start : Ground} {past vs : List (Visit ε)} {p p' : PassState}

/-- The element of a visit that shares groups does so with an element that was visited before. What
both got stays stored to the end of the pass, since no element is visited twice. -/
theorem exists_sharesWith (ht : i.tree.Lawful) (hkeys : i.tree.KeysDistinct) {v : Visit ε}
    (h : i.Along e start past v.state) (hready : v.toStation.Ready i.tree past)
    (hstyle : v.style i.tree = .ok (v.out, v.after)) (hshares : v.Shares i)
    (hwalk : Walk i.tree (v :: past) v.after vs p')
    (hnodup : ((vs.reverse ++ v :: past).map (·.element)).Nodup) :
    ∃ w ∈ past, i.SharesWith p'.styler v.element w.element := by
  obtain ⟨own, similar, key, history, hfound, hsimilar, hout⟩ := hshares
  obtain ⟨entry, hentry, rfl⟩ := Option.map_eq_some_iff.mp hfound
  obtain ⟨w, hw, hbefore, rfl⟩ := h.visited ht hready entry (List.mem_of_find?_eq_some hentry)
  rw [List.map_append, List.nodup_append'] at hnodup
  obtain ⟨-, hpast, hdisjoint⟩ := hnodup
  have hlater : ∀ u ∈ v :: past, p'.styler.styles[i.tree.key u.element]? =
      v.after.styler.styles[i.tree.key u.element]? := by
    intro u hu
    refine hwalk.styles_eq fun v' hv' heq => hdisjoint (a := u.element) ?_ ?_
    · exact hkeys heq ▸ List.mem_map_of_mem (List.mem_reverse.mpr hv')
    · exact List.mem_map_of_mem hu
  have hother : i.tree.key v.element ≠ i.tree.key w.element := by
    intro heq
    rw [List.map_cons, List.nodup_cons, hkeys heq] at hpast
    exact hpast.1 (List.mem_map_of_mem hw)
  have hsignature := List.find?_some hentry
  refine ⟨w, hw, hbefore, hsignature, own, similar, ?_, ?_⟩
  · rw [hlater v List.mem_cons_self, (Styler.out_of_styleElement hstyle).2, hout]
    rfl
  · have hrecorded := Styler.records_styleElement _ _ _ _ _ _ hstyle
    rw [hlater w (List.mem_cons_of_mem _ hw), ← hsimilar]
    exact (hrecorded.kept _ (by simpa using hother.symm)).1

/-- The elements that a pass counts as sharing. -/
theorem exists_counted (ht : i.tree.Lawful) (hkeys : i.tree.KeysDistinct) (hfair : i.metrics.Fair)
    (h : i.Along e start past p) (hwalk : Walk i.tree past p vs p')
    (hfirst : past = [] → ∀ v ∈ vs.head?, v.element = e)
    (hnodup : ((vs.reverse ++ past).map (·.element)).Nodup) :
    ∃ counted : List ε, counted.Sublist (vs.map (·.element)) ∧
      p'.report.shared = p.report.shared + counted.length ∧
      ∀ x ∈ counted, ∃ y ∈ (vs.reverse ++ past).map (·.element),
        i.SharesWith p'.styler x y := by
  induction hwalk with
  | stop hidle =>
    obtain ⟨dependencies, filter, rfl⟩ := hidle
    exact ⟨[], .slnil, rfl, by simp⟩
  | @visit past vs p p' v hidle hready hstyle hwalk ih =>
    have halong := h.idle hidle
    obtain ⟨hvisit, hshared⟩ :=
      halong.visit ht hfair hready (fun hpast => hfirst hpast v rfl) hstyle
    rw [List.reverse_cons, List.append_assoc, List.singleton_append] at hnodup ⊢
    obtain ⟨counted, hsublist, hcount, hcounted⟩ := ih hvisit (by simp) hnodup
    have hreport : v.state.report = p.report := by
      obtain ⟨dependencies, filter, hstate⟩ := hidle
      rw [hstate]
    rw [← hreport]
    rcases hshared with hsame | ⟨hmore, hshares⟩
    · exact ⟨counted, hsublist.cons _, by rw [hcount, hsame], hcounted⟩
    · obtain ⟨w, hw, hwith⟩ :=
        halong.exists_sharesWith ht hkeys hready hstyle hshares hwalk hnodup
      have hmem : w.element ∈ (vs.reverse ++ v :: past).map (·.element) :=
        List.mem_map_of_mem (List.mem_append_right _ (List.mem_cons_of_mem _ hw))
      exact ⟨v.element :: counted, hsublist.cons_cons _, by grind,
        List.forall_mem_cons.mpr ⟨⟨w.element, hmem, hwith⟩, hcounted⟩⟩

end PassInput.Along

/-! ## Passes -/

theorem StyledTree.head?_met {t : StyledTree ε} (ht : t.Lawful) (e : ε) :
    (t.met (t.branch e)).head? = some e := by
  have helement := ht.element_branch e
  cases hb : t.branch e with
  | node x cs =>
    rw [hb] at helement
    rw [met, List.head?_cons]
    exact congrArg some helement

/-- What a pass over `e` from the ground `start` leaves: for every element that it meets, what the
naive way down to it comes to. -/
structure PassInput.Descended (i : PassInput ε) (e : ε) (start : Ground) (s : Styler)
    (r : Report) : Prop where
  styled : ∀ x ∈ i.tree.met (i.tree.branch e), ∃ ground, i.naive.groundAt start e x = .ok ground ∧
    ∀ style, s.styles[i.tree.key x]? = some style →
      Ground.plainForm ⟨some style, s.rootFontSize⟩ = ground.plainForm
  counted : ∃ counted : List ε, counted.Sublist (i.tree.met (i.tree.branch e)) ∧
    r.shared = counted.length ∧
    ∀ x ∈ counted, ∃ y ∈ i.tree.met (i.tree.branch e), i.SharesWith s x y

namespace PassInput

variable {i : PassInput ε} {e : ε} {s : Styler}

namespace Along

variable {start : Ground} {vs : List (Visit ε)} {p p' : PassState}

/-- A walk over all elements that are met leaves what the naive ways down say. -/
theorem descended (ht : i.tree.Lawful) (hkeys : i.tree.KeysDistinct) (hfair : i.metrics.Fair)
    (h : i.Along e start [] p) (hreport : p.report.shared = 0) (hwalk : Walk i.tree [] p vs p')
    (hvs : vs.map (·.element) = i.tree.met (i.tree.branch e)) :
    i.Descended e start p'.styler p'.report := by
  have hhead := StyledTree.head?_met ht e
  have hfirst : ∀ v ∈ vs.head?, v.element = e := by
    intro v hv
    rw [← hvs, List.head?_map, hv] at hhead
    exact Option.some.inj hhead
  have hdistinct := ht.nodup_keys_met hkeys e
  rw [← hvs, List.map_map] at hdistinct
  refine ⟨fun x hx => ?_, ?_⟩
  · rw [← hvs] at hx
    obtain ⟨v, hv, rfl⟩ := List.mem_map.mp hx
    obtain ⟨ground, hground, hplain⟩ :=
      (h.walk ht hfair hwalk fun _ => hfirst).came v (by simpa using hv)
    refine ⟨ground, hground, fun style hstyle => ?_⟩
    have hstored := hwalk.stored hdistinct v hv
    rw [hstyle] at hstored
    obtain ⟨⟨_, history⟩, hout, rfl⟩ := Option.map_eq_some_iff.mp hstored.symm
    exact hplain hout
  · have hnodup : (vs.map (·.element)).Nodup := hvs ▸ ht.nodup_met e
    obtain ⟨counted, hsublist, hcount, hcounted⟩ := h.exists_counted ht hkeys hfair hwalk
      (fun _ => hfirst) (by simpa using hnodup)
    refine ⟨counted, hvs ▸ hsublist, by simpa [hreport] using hcount, fun x hx => ?_⟩
    obtain ⟨y, hy, hshares⟩ := hcounted x hx
    exact ⟨y, by simpa [← hvs] using hy, hshares⟩

/-- Where a walk comes to a stop, so does the naive way down. -/
theorem groundAt_of_stuck (ht : i.tree.Lawful) (hfair : i.metrics.Fair)
    (h : i.Along e start [] p) {error : StyleError} {a : Station ε}
    (hstuck : Stuck i.tree [] p (i.tree.met (i.tree.branch e)) error vs p' a) :
    a.element ∈ i.tree.met (i.tree.branch e) ∧
      i.naive.groundAt start e a.element = .error error := by
  have hhead := StyledTree.head?_met ht e
  obtain ⟨rest, hrest⟩ := hstuck.prefix_met
  rw [← hrest] at hhead
  have hfirst : ∀ v ∈ vs.head?, v.element = e := by
    intro v hv
    obtain ⟨vs', rfl⟩ := List.head?_eq_some_iff.mp hv
    simpa using hhead
  have hfirst' : vs.reverse ++ [] = [] → a.element = e := by
    intro hnone
    obtain rfl : vs = [] := by simpa using hnone
    simpa using hhead
  refine ⟨hrest ▸ by simp, ?_⟩
  have halong := (h.walk ht hfair hstuck.walk fun _ => hfirst).idle hstuck.idle
  obtain ⟨-, hground⟩ := halong.ground ht hfair hstuck.ready hfirst'
  rcases halong.underway.visit ht hfair hstuck.ready.filter with
    ⟨error', herror, hstep⟩ | ⟨ground, out, after, hstyle, -⟩
  · obtain rfl := Except.error.inj (hstuck.error.symm.trans herror)
    rw [hstep] at hground
    exact eq_error_of_map_eq_error hground
  · have herror := hstuck.error.symm.trans hstyle
    cases herror

end Along

/-- A pass that is begun leaves what the naive ways down say, or fails with the error of one of
them. -/
theorem descended_restyle (ht : i.tree.Lawful) (hkeys : i.tree.KeysDistinct)
    (hfair : i.metrics.Fair) (hs : s.Resting i.settings i.metrics i.index i.digest)
    {parent : Option ComputedStyle} (hconnected : i.tree.isConnected e = true)
    (hparent : s.parentStyle i.tree e = .ok parent) :
    (∃ s' r, s.restyle i.tree e = .ok (s', r) ∧ i.Descended e ⟨parent, s.rootFontSize⟩ s' r) ∨
    ∃ error, ∃ x ∈ i.tree.met (i.tree.branch e), s.restyle i.tree e = .error (.style error) ∧
      i.naive.groundAt ⟨parent, s.rootFontSize⟩ e x = .error error := by
  have hstart : i.Along e ⟨parent, s.rootFontSize⟩ [] ⟨s.beginPass i.tree e, .empty⟩ :=
    { underway := underway_beginPass hkeys hs e
      first := fun _ => ⟨hparent, rfl⟩
      below := by simp
      came := by simp
      remembered := by simp }
  rcases Styler.goes_restyle ht hkeys hconnected hparent with
    ⟨s', r, vs, hrun, hvs, hwalk⟩ | ⟨error, vs, p, a, hrun, hstuck⟩
  · exact .inl ⟨s', r, hrun, hstart.descended ht hkeys hfair rfl hwalk hvs⟩
  · obtain ⟨hmet, herror⟩ := hstart.groundAt_of_stuck ht hfair hstuck
    exact .inr ⟨error, a.element, hmet, hrun, herror⟩

/-- A pass that comes to an end leaves what the naive ways down say. -/
theorem exists_descended (ht : i.tree.Lawful) (hkeys : i.tree.KeysDistinct)
    (hfair : i.metrics.Fair) (hs : s.Resting i.settings i.metrics i.index i.digest) {s' : Styler}
    {r : Report} (hrun : s.restyle i.tree e = .ok (s', r)) :
    ∃ parent, s.parentStyle i.tree e = .ok parent ∧
      i.Descended e ⟨parent, s.rootFontSize⟩ s' r := by
  obtain ⟨parent, -, hparent, -⟩ := Styler.exists_run_of_restyle hrun
  refine ⟨parent, hparent, ?_⟩
  rcases descended_restyle ht hkeys hfair hs (Styler.isConnected_of_restyle hrun) hparent with
    ⟨s'', r', hrun', hleft⟩ | ⟨error, x, hx, hrun', -⟩
  · obtain ⟨rfl, rfl⟩ := Prod.mk.inj (Except.ok.inj (hrun.symm.trans hrun'))
    exact hleft
  · rw [hrun] at hrun'
    cases hrun'

end PassInput

end StyleEngine
