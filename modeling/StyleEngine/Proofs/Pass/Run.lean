import StyleEngine.Proofs.Pass.Element

/-!
# A pass over a branch

A pass goes down a branch with the region of all that it has gone through, and forgets the notes of
each child when it enters it. No element of the region looks at the child, so nothing that is
remembered is lost.

## Main definitions

* `PassInput.Passed`: the invariant of a pass, with some more elements done.
* `PassInput.StylesBranch`: what a pass over the branch of an element does.

## Main statements

* `PassInput.stylesBranch`: every branch is styled so.
-/

namespace StyleEngine

variable {ε : Type}

namespace PassInput

variable {i : PassInput ε} {root e : ε}

/-- The invariant after a pass over the elements of `l`, which are in the region now and done. -/
def Passed (i : PassInput ε) (region : i.tree.Region root) (done : ε → Prop) (l : List ε)
    (s : Styler) : Prop :=
  ∃ region' : i.tree.Region root, (∀ x, region'.mem x ↔ x ∈ l ∨ region.mem x) ∧
    i.Midway region' (fun x => x ∈ l ∨ done x) s

/-- A pass over the branch of `e` comes to an end, with all elements of the branch done. It starts
when `e` is in the region and no other element of the branch is. -/
def StylesBranch (i : PassInput ε) (root e : ε) : Prop :=
  ∀ {region : i.tree.Region root} {done : ε → Prop} {s : Styler} {parent : Option ComputedStyle}
    (r : Report) (history : SiblingHistory),
    i.Midway region done s → region.mem e →
    (∀ x ∈ (i.tree.branch e).elements, x ≠ e → ¬region.mem x) →
    s.Filtered i.tree e → i.Ready done s.rootFontSize e parent →
    ∃ history' s' r', (Styler.styleBranch i.tree parent history (i.tree.branch e)).run ⟨s, r⟩ =
        .ok (history', ⟨s', r'⟩) ∧
      i.Passed region done (i.tree.branch e).elements s' ∧ s'.Filtered i.tree e

section Regions

variable {region : i.tree.Region root} {done : ε → Prop} {s : Styler}

theorem Midway.grow (ht : i.tree.Rooted root) (h : i.Midway region done s)
    {region' : i.tree.Region root} (hregion : ∀ {x}, region.mem x → region'.mem x) :
    i.Midway region' done s :=
  { h with
    sound := StyledTree.Region.sound_mono ht hregion h.sound
    done_mem := fun hx => hregion (h.done_mem hx) }

/-- The notes of an element outside the region can be dropped. -/
theorem Midway.forget (ht : i.tree.Lawful) (h : i.Midway region done s) {key : ElementKey}
    (hkey : ∀ x, region.mem x → i.tree.key x ≠ key) :
    i.Midway region done { s with dependencies := s.dependencies.forget key } where
  toSetUp := { h.toSetUp with }
  sound := StyledTree.Region.sound_forget ht hkey h.sound
  done_mem := h.done_mem
  settled hx := by
    refine ⟨(h.settled hx).style, (h.settled hx).noted.forget fun r hr => hkey r.1 ?_⟩
    exact region.closed (h.done_mem hx) (RuleIndex.reaches_of_mem_heard ht.toLawful hr)

/-- More elements that are done, under another name. -/
theorem Midway.congr (h : i.Midway region done s) {done' : ε → Prop}
    (hdone : ∀ x, done' x ↔ done x) : i.Midway region done' s :=
  { h with
    done_mem := fun hx => h.done_mem ((hdone _).mp hx)
    settled := fun hx => h.settled ((hdone _).mp hx) }

end Regions

section Children

variable (ht : i.tree.Rooted root) (he : e ∈ (i.tree.branch root).elements)
  {style : ComputedStyle} {rootFontSize : Float32} (hstyle : i.naive.Agrees e style rootFontSize)
  {before : List (Branch ε)}

include ht he hstyle

/-- A child is entered when its elder siblings are done. -/
theorem exists_styleChild {c : Branch ε} {bs : List (Branch ε)}
    (hchildren : (i.tree.branch e).children = before ++ c :: bs)
    (hbranch : i.StylesBranch root c.element) {region : i.tree.Region root} {done : ε → Prop}
    {s : Styler} (r : Report) (history : SiblingHistory) (h : i.Midway region done s)
    (hdone : done e) (hbefore : ∀ b ∈ before, region.mem b.element)
    (hnew : ∀ x ∈ c.elements, ¬region.mem x) (hfilter : s.FilteredBelow i.tree e) :
    ∃ history' s' r', (Styler.styleBranch i.tree (some style) history c).run
        ⟨{ s with dependencies := s.dependencies.forget (i.tree.key c.element) }, r⟩ =
        .ok (history', ⟨s', r'⟩) ∧
      i.Passed region done c.elements s' ∧ s'.FilteredBelow i.tree e := by
  have hc : c ∈ (i.tree.branch e).children := by simp [hchildren]
  obtain ⟨hcbranch, hup⟩ := ht.branch_child hc
  have hcmem : c.element ∈ (i.tree.branch root).elements := ht.mem_trans he (ht.child_mem hc)
  have hctop : c.element ∈ c.elements := by
    rw [Branch.elements_eq]
    exact List.mem_cons_self
  have hpreceding : ∀ y ∈ i.tree.preceding c.element, region.mem y := by
    intro y hy
    rw [(ht.siblings_child hchildren).1, List.mem_reverse] at hy
    obtain ⟨b, hb, rfl⟩ := List.mem_map.mp hy
    exact hbefore b hb
  have hkey (x : ε) (hx : region.mem x) : i.tree.key x ≠ i.tree.key c.element := by
    intro heq
    obtain rfl := ht.key_injective (region.mem_elements hx) hcmem heq
    exact hnew _ hctop hx
  -- The notes of the child go first, while it is outside the region; then the region grows by it.
  let region' := region.insert hcmem hup (h.done_mem hdone) hpreceding
  have hmidway : i.Midway region' done _ := (h.forget ht.lawful hkey).grow ht fun hx => .inr hx
  obtain ⟨⟨stored, -, hstored⟩, -⟩ := h.settled hdone
  obtain ⟨history', s', r', hrun, ⟨region'', hmem, hpassed⟩, hfilter'⟩ := hbranch r history hmidway
    (.inl rfl) (fun x hx hne hmem => hmem.elim hne (hnew x (hcbranch ▸ hx)))
    ((Styler.filtered_child_iff ht.lawful hc).mpr hfilter)
    (show i.Ready _ _ _ (some style) from ⟨e, hup, hstyle.with_rootFontSize hstored⟩)
  rw [hcbranch] at hrun hmem hpassed
  refine ⟨history', s', r', hrun, ⟨region'', fun x => ?_, hpassed⟩, ?_⟩
  · rw [hmem]
    constructor
    · rintro (hx | rfl | hx)
      · exact .inl hx
      · exact .inl hctop
      · exact .inr hx
    · exact Or.imp_right .inr
  · exact (Styler.filtered_child_iff ht.lawful hc).mp hfilter'

/-- The children of an element are styled one after the other. -/
theorem exists_styleChildren {bs : List (Branch ε)}
    (hchildren : (i.tree.branch e).children = before ++ bs)
    (hnodup : (bs.flatMap Branch.elements).Nodup)
    (hbranch : ∀ c ∈ bs, i.StylesBranch root c.element)
    {region : i.tree.Region root} {done : ε → Prop} {s : Styler} (r : Report)
    (history : SiblingHistory) (h : i.Midway region done s) (hdone : done e)
    (hbefore : ∀ b ∈ before, region.mem b.element)
    (hnew : ∀ x ∈ bs.flatMap Branch.elements, ¬region.mem x)
    (hfilter : s.FilteredBelow i.tree e) :
    ∃ s' r', (Styler.styleChildren i.tree style history bs).run ⟨s, r⟩ = .ok ((), ⟨s', r'⟩) ∧
      i.Passed region done (bs.flatMap Branch.elements) s' ∧
      s'.FilteredBelow i.tree e := by
  induction bs generalizing before region done s r history with
  | nil =>
    exact ⟨s, r, rfl, ⟨region, fun x => by simp, h.congr fun x => by simp⟩, hfilter⟩
  | cons c bs ih =>
    rw [List.flatMap_cons] at hnodup hnew
    obtain ⟨-, hnodup', hdisjoint⟩ := List.nodup_append.mp hnodup
    obtain ⟨history', s', r', hrun, ⟨region', hmem, hmidway⟩, hfilter'⟩ :=
      exists_styleChild ht he hstyle hchildren (hbranch c List.mem_cons_self) r history h hdone
        hbefore (fun x hx => hnew x (List.mem_append_left _ hx)) hfilter
    have hbefore' : ∀ b ∈ before ++ [c], region'.mem b.element := by
      intro b hb
      rw [hmem]
      rcases List.mem_append.mp hb with hb | hb
      · exact .inr (hbefore b hb)
      · rw [List.mem_singleton.mp hb, Branch.elements_eq]
        exact .inl List.mem_cons_self
    have hnew' : ∀ x ∈ bs.flatMap Branch.elements, ¬region'.mem x := by
      intro x hx hx'
      rcases (hmem x).mp hx' with hc | hold
      · exact hdisjoint x hc x hx rfl
      · exact hnew x (List.mem_append_right _ hx) hold
    obtain ⟨s'', r'', hrun', ⟨region'', hmem', hmidway'⟩, hfilter''⟩ :=
      ih (by rw [hchildren, List.append_assoc]; rfl) hnodup'
        (fun b hb => hbranch b (List.mem_cons_of_mem _ hb)) r' history' hmidway (.inr hdone)
        hbefore' hnew' hfilter'
    refine ⟨s'', r'', ?_, ⟨region'', fun x => ?_, hmidway'.congr fun x => ?_⟩, hfilter''⟩
    · rw [Styler.styleChildren, PassM.run_bind_of_ok rfl, PassM.run_bind_of_ok hrun]
      exact hrun'
    · rw [hmem', hmem, List.flatMap_cons, List.mem_append, or_left_comm, or_assoc]
    · rw [List.flatMap_cons, List.mem_append, or_left_comm, or_assoc]

end Children

theorem run_styleBranch {parent : Option ComputedStyle} {history history' : SiblingHistory}
    {b : Branch ε} (hb : b.element = e) {style : ComputedStyle} {s s' s'' : Styler}
    {r r' r'' : Report}
    (helement : (Styler.styleElement i.tree parent history e).run ⟨s, r⟩ =
      .ok (some (style, history'), ⟨s', r'⟩))
    (hchildren : (Styler.styleChildren i.tree style (.empty s'.settings.scanLimit) b.children).run
      ⟨{ s' with filter := s'.filter.push s'.digest i.tree.toElementTree e }, r'⟩ =
      .ok ((), ⟨s'', r''⟩)) :
    (Styler.styleBranch i.tree parent history b).run ⟨s, r⟩ =
      .ok (history',
        ⟨{ s'' with filter := s''.filter.pop s''.digest i.tree.toElementTree e }, r''⟩) := by
  obtain ⟨a, cs⟩ := b
  obtain rfl : a = e := hb
  simp only [Branch.children] at hchildren
  rw [Styler.styleBranch, PassM.run_bind_of_ok helement]
  dsimp only
  rw [PassM.run_bind_of_ok rfl, PassM.run_bind_of_ok rfl, PassM.run_bind_of_ok hchildren]
  rfl

/-- A pass over the branch of any element comes to an end and settles the branch. -/
theorem stylesBranch (ht : i.tree.Rooted root) (hfair : i.metrics.Fair)
    (hfits : ∀ x ∈ (i.tree.branch root).elements, i.naive.Fits x)
    (he : e ∈ (i.tree.branch root).elements) : i.StylesBranch root e := by
  induction e using ht.induction_branch with
  | step e ih =>
    intro region done s parent r history h hmem hnew hfilter hready
    obtain ⟨style, history', s', r', hrun, hmidway, hfilter', hstyle⟩ :=
      exists_styleElement ht hfair (hfits e he) h hmem hfilter hready r history
    have helements := ht.elements_branch e
    have hnodup : (e :: (i.tree.branch e).children.flatMap Branch.elements).Nodup :=
      helements ▸ ht.nodup_elements e
    obtain ⟨hnotin, hnodup⟩ := List.nodup_cons.mp hnodup
    have hchildren : (i.tree.branch e).children = [] ++ (i.tree.branch e).children := rfl
    have hbelow : ∀ x ∈ (i.tree.branch e).children.flatMap Branch.elements, ¬region.mem x := by
      intro x hx
      refine hnew x (helements ▸ List.mem_cons_of_mem _ hx) ?_
      rintro rfl
      exact hnotin hx
    obtain ⟨s'', r'', hrun', ⟨region', hmem', hmidway'⟩, hfilter''⟩ :=
      exists_styleChildren ht he hstyle hchildren hnodup
        (fun c hc => ih c hc (ht.mem_trans he (ht.child_mem hc))) r' (.empty s'.settings.scanLimit)
        (hmidway.with (s'.filter.push s'.digest i.tree.toElementTree e) s'.stamp s'.differences)
        (.inl rfl) (by simp) hbelow hfilter'.push
    -- Leaving the element takes off the filter what entering it put there.
    have hend := hmidway'.with (s''.filter.pop s''.digest i.tree.toElementTree e) s''.stamp
      s''.differences
    refine ⟨history', _, r'', run_styleBranch (ht.element_branch e) hrun hrun',
      ⟨region', fun x => ?_, hend.congr fun x => ?_⟩, hfilter''.pop⟩
    · rw [hmem', helements, List.mem_cons, or_assoc]
      constructor
      · exact .inr
      · rintro (rfl | hx)
        · exact .inr hmem
        · exact hx
    · rw [helements, List.mem_cons, or_assoc, or_left_comm]

end PassInput

end StyleEngine
