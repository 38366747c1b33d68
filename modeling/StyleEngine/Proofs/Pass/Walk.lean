import StyleEngine.Proofs.Pass.Report

/-!
# The way of a pass

A pass goes from element to element, in document order, and styles each where it stands: below the
style that its parent got, with a filter that holds its ancestors, and next to the siblings that it
remembers. Between two elements it changes the filter and forgets notes, and nothing else.

## Main definitions

* `Station`, `Visit`: an element that is about to be styled, and one that has been styled.
* `Station.Ready`: what a pass brings along to an element.
* `Walk`: the visits of a pass one after the other.

## Main statements

* `Styler.goes_styleBranch`: a pass over a branch is a walk over the elements that are met, or comes
  to a stop at one of them.
* `Walk.keeps`: what every visit keeps, a walk keeps.
* `Walk.stored`: what a visit stores is there at the end.
-/

namespace StyleEngine

variable {ε : Type}

/-- Nothing has changed but notes and the filter. -/
def PassState.Idle (p p' : PassState) : Prop :=
  ∃ dependencies filter,
    p' = ⟨{ p.styler with dependencies := dependencies, filter := filter }, p.report⟩

theorem PassState.Idle.refl (p : PassState) : p.Idle p :=
  ⟨p.styler.dependencies, p.styler.filter, rfl⟩

theorem PassState.Idle.trans {p p' p'' : PassState} (h : p.Idle p') (h' : p'.Idle p'') :
    p.Idle p'' := by
  obtain ⟨dependencies, filter, rfl⟩ := h
  obtain ⟨dependencies', filter', rfl⟩ := h'
  exact ⟨dependencies', filter', rfl⟩

/-- An element that is about to be styled. -/
structure Station (ε : Type) where
  element : ε
  parent : Option ComputedStyle
  history : SiblingHistory
  state : PassState

/-- An element that has been styled. -/
structure Visit (ε : Type) extends Station ε where
  /-- The style that was stored and the siblings to go on with, if the element is connected. -/
  out : Option (ComputedStyle × SiblingHistory)
  after : PassState

/-- Styles the element. -/
def Station.style (t : StyledTree ε) (a : Station ε) :
    Except StyleError (Option (ComputedStyle × SiblingHistory) × PassState) :=
  (Styler.styleElement t a.parent a.history a.element).run a.state

/-- The siblings that are remembered are those that the visit of one of `l` left, or none. -/
def SiblingHistory.LeftBy (history : SiblingHistory) (past : List (Visit ε)) (l : List ε) : Prop :=
  history.entries = [] ∨
    ∃ v ∈ past, v.element ∈ l ∧ ∃ style, v.out = some (style, history)

/-- What a pass brings along to an element, after the visits of the `past`. -/
structure Station.Ready (t : StyledTree ε) (past : List (Visit ε)) (a : Station ε) : Prop where
  parent : a.state.styler.parentStyle t a.element = .ok a.parent
  filter : a.state.styler.Filtered t a.element
  history : a.history.LeftBy past (t.preceding a.element)
  /-- A pass starts at the top, and goes below elements only that it has styled. -/
  below : past = [] ∨ ∃ v ∈ past, t.parent? a.element = some v.element ∧
    ∃ style history, v.out = some (style, history) ∧ a.parent = some style

/-- The visits of a pass, after those of the `past`, of which the latest comes first. -/
inductive Walk (t : StyledTree ε) :
    List (Visit ε) → PassState → List (Visit ε) → PassState → Prop
  | stop {past : List (Visit ε)} {p p' : PassState} : p.Idle p' → Walk t past p [] p'
  | visit {past vs : List (Visit ε)} {p p' : PassState} {v : Visit ε} : p.Idle v.state →
    v.toStation.Ready t past → v.style t = .ok (v.out, v.after) →
    Walk t (v :: past) v.after vs p' → Walk t past p (v :: vs) p'

/-- A walk that comes to a stop at an element that cannot be styled. -/
structure Stuck (t : StyledTree ε) (past : List (Visit ε)) (p : PassState) (l : List ε)
    (error : StyleError) (vs : List (Visit ε)) (p' : PassState) (a : Station ε) : Prop where
  walk : Walk t past p vs p'
  idle : p'.Idle a.state
  ready : a.Ready t (vs.reverse ++ past)
  error : a.style t = .error error
  prefix_met : vs.map (·.element) ++ [a.element] <+: l

/-- A step that is a walk over the elements of `l`, or comes to a stop at one of them. -/
def PassM.Goes {α : Type} (t : StyledTree ε) (past : List (Visit ε)) (p : PassState) (l : List ε)
    (x : PassM α) (post : α → List (Visit ε) → PassState → Prop) : Prop :=
  match x.run p with
  | .ok (a, p') => ∃ vs, vs.map (·.element) = l ∧ Walk t past p vs p' ∧ post a vs p'
  | .error error => ∃ vs p' a, Stuck t past p l error vs p' a

/-! ## Walks -/

section Walks

variable {t : StyledTree ε} {past vs vs' : List (Visit ε)} {p p' p'' : PassState}

theorem SiblingHistory.LeftBy.mono {history : SiblingHistory} {past' : List (Visit ε)}
    {l l' : List ε} (h : history.LeftBy past l) (hpast : past ⊆ past') (hl : l ⊆ l') :
    history.LeftBy past' l' :=
  h.imp_right fun ⟨v, hv, hmem, hout⟩ => ⟨v, hpast hv, hl hmem, hout⟩

namespace Walk

theorem of_idle (h : p.Idle p') (hwalk : Walk t past p' vs p'') : Walk t past p vs p'' := by
  cases hwalk with
  | stop h' => exact .stop (h.trans h')
  | visit h' hready hstyle hwalk => exact .visit (h.trans h') hready hstyle hwalk

theorem append (h : Walk t past p vs p') (h' : Walk t (vs.reverse ++ past) p' vs' p'') :
    Walk t past p (vs ++ vs') p'' := by
  induction h with
  | stop hidle => exact h'.of_idle hidle
  | visit hidle hready hstyle _ ih =>
    refine .visit hidle hready hstyle (ih ?_)
    simpa using h'

/-- What holds at the start of a walk, and is kept by bookkeeping and by every visit, holds at every
visit and at the end. -/
theorem keeps {P : PassState → Prop} (hidle : ∀ {p p' : PassState}, p.Idle p' → P p → P p')
    (hvisit : ∀ {past : List (Visit ε)} {v : Visit ε}, v.toStation.Ready t past →
      v.style t = .ok (v.out, v.after) → P v.state → P v.after)
    (h : Walk t past p vs p') (hp : P p) : P p' ∧ ∀ v ∈ vs, P v.state := by
  induction h with
  | stop h => exact ⟨hidle h hp, fun v hv => absurd hv List.not_mem_nil⟩
  | visit h hready hstyle _ ih =>
    have hstate := hidle h hp
    obtain ⟨hend, hrest⟩ := ih (hvisit hready hstyle hstate)
    refine ⟨hend, fun v hv => ?_⟩
    rcases List.mem_cons.mp hv with rfl | hv
    · exact hstate
    · exact hrest v hv

/-- Each visit of a walk comes after the visits before it. -/
theorem exists_before (h : Walk t past p vs p') {v : Visit ε} (hv : v ∈ vs) :
    ∃ before after, vs = before ++ v :: after ∧
      v.toStation.Ready t (before.reverse ++ past) ∧ v.style t = .ok (v.out, v.after) := by
  induction h with
  | stop => cases hv
  | @visit past vs p p' u _ hready hstyle _ ih =>
    rcases List.mem_cons.mp hv with rfl | hv
    · exact ⟨[], vs, rfl, hready, hstyle⟩
    · obtain ⟨before, after, rfl, hready, hstyle⟩ := ih hv
      exact ⟨u :: before, after, rfl, by simpa using hready, hstyle⟩

/-- A walk stores nothing under the keys of elements that it does not visit. -/
theorem styles_eq {key : ElementKey} (h : Walk t past p vs p')
    (hkey : ∀ v ∈ vs, t.key v.element ≠ key) :
    p'.styler.styles[key]? = p.styler.styles[key]? := by
  induction h with
  | stop h =>
    obtain ⟨dependencies, filter, rfl⟩ := h
    rfl
  | @visit past vs p p' v hidle hready hstyle _ ih =>
    rw [List.forall_mem_cons] at hkey
    obtain ⟨dependencies, filter, hstate⟩ := hidle
    have hkept := (Styler.records_styleElement v.parent v.history v.element _ _ _ hstyle).kept key
      (by simpa using hkey.1.symm)
    rw [ih hkey.2, hkept.1, hstate]

end Walk

namespace Styler.Enduring

variable {P : Styler → Prop} (h : Enduring (fun _ => True) P)

include h

theorem of_idle (hidle : p.Idle p') (hp : P p.styler) : P p'.styler := by
  obtain ⟨dependencies, filter, rfl⟩ := hidle
  exact h.move filter (h.store dependencies p.styler.styles p.styler.differences
    p.styler.rootFontSize p.styler.stamp (fun _ _ => rfl) hp)

/-- What endures in a pass holds at every visit of a walk and at the end, if it holds at the
start. -/
theorem of_walk (hwalk : Walk t past p vs p') (hp : P p.styler) :
    P p'.styler ∧ ∀ v ∈ vs, P v.state.styler :=
  hwalk.keeps (fun hidle => h.of_idle hidle)
    (fun _ hstyle hp => h.keeps_styleElement trivial _ _ _ _ _ _ _ hp hstyle) hp

end Styler.Enduring

end Walks

/-! ## Steps of a pass -/

namespace PassM.Goes

variable {α β : Type} {t : StyledTree ε} {past : List (Visit ε)} {p p' : PassState}
  {l l' : List ε} {post : α → List (Visit ε) → PassState → Prop}
  {post' : β → List (Visit ε) → PassState → Prop}

/-- A step that visits no element. -/
theorem of_idle {x : PassM α} {a : α} (hrun : x.run p = .ok (a, p')) (hidle : p.Idle p')
    (hpost : post a [] p') : x.Goes t past p [] post := by
  rw [Goes, hrun]
  exact ⟨[], rfl, .stop hidle, hpost⟩

theorem bind {x : PassM α} {f : α → PassM β} (hx : x.Goes t past p l post)
    (hf : ∀ a vs p', vs.map (·.element) = l → Walk t past p vs p' → post a vs p' →
      (f a).Goes t (vs.reverse ++ past) p' l' fun b vs' p'' => post' b (vs ++ vs') p'') :
    (x >>= f).Goes t past p (l ++ l') post' := by
  unfold Goes at hx ⊢
  cases hrun : x.run p with
  | error error =>
    have hbind : (x >>= f).run p = .error error := by
      rw [StateT.run_bind, hrun]
      rfl
    rw [hrun] at hx
    rw [hbind]
    obtain ⟨vs, p', a, hstuck⟩ := hx
    exact ⟨vs, p', a, { hstuck with
      prefix_met := hstuck.prefix_met.trans (List.prefix_append l l') }⟩
  | ok result =>
    obtain ⟨a, p'⟩ := result
    rw [hrun] at hx
    rw [run_bind_of_ok hrun]
    obtain ⟨vs, hvs, hwalk, hpost⟩ := hx
    have hrest := hf a vs p' hvs hwalk hpost
    unfold Goes at hrest
    cases hrun' : (f a).run p' with
    | error error =>
      rw [hrun'] at hrest
      obtain ⟨vs', p'', b, hstuck⟩ := hrest
      refine ⟨vs ++ vs', p'', b, hwalk.append hstuck.walk, hstuck.idle, ?_, hstuck.error, ?_⟩
      · simpa using hstuck.ready
      · rw [List.map_append, hvs, List.append_assoc, List.prefix_append_right_inj]
        exact hstuck.prefix_met
    | ok result =>
      obtain ⟨b, p''⟩ := result
      rw [hrun'] at hrest
      obtain ⟨vs', hvs', hwalk', hpost'⟩ := hrest
      exact ⟨vs ++ vs', by rw [List.map_append, hvs, hvs'], hwalk.append hwalk', hpost'⟩

/-- Bookkeeping comes before a walk. -/
theorem of_run_bind {x : PassM α} {f : α → PassM β} {a : α} (hrun : x.run p = .ok (a, p'))
    (hidle : p.Idle p') (hf : (f a).Goes t past p' l post') : (x >>= f).Goes t past p l post' := by
  have hx : x.Goes t past p [] fun b vs q => b = a ∧ vs = [] ∧ q = p' :=
    of_idle hrun hidle ⟨rfl, rfl, rfl⟩
  refine hx.bind (l := []) fun b vs q _ _ hb => ?_
  obtain ⟨rfl, rfl, rfl⟩ := hb
  exact hf

end PassM.Goes

namespace Styler

open PassM

variable {t : StyledTree ε} {past : List (Visit ε)} {p : PassState}

/-- Styling an element is the visit of it. -/
theorem goes_styleElement {a : Station ε} (hready : a.Ready t past) :
    (styleElement t a.parent a.history a.element).Goes t past a.state [a.element]
      fun out vs p' => vs = [⟨a, out, p'⟩] ∧ a.style t = .ok (out, p') := by
  unfold Goes
  cases hrun : (styleElement t a.parent a.history a.element).run a.state with
  | error error =>
    refine ⟨[], a.state, a, .stop (.refl _), .refl _, hready, hrun, ?_⟩
    exact List.prefix_rfl
  | ok result =>
    obtain ⟨out, p'⟩ := result
    exact ⟨[⟨a, out, p'⟩], rfl, .visit (.refl _) hready hrun (.stop (.refl _)), rfl, hrun⟩

/-- Styling an element leaves the filter as it is. -/
theorem filtered_of_styleElement {x : ε} (hfilter : p.styler.Filtered t x)
    {parent : Option ComputedStyle} {history : SiblingHistory} {e : ε}
    {out : Option (ComputedStyle × SiblingHistory)} {p' : PassState}
    (h : (styleElement t parent history e).run p = .ok (out, p')) :
    p'.styler.Filtered t x := by
  have hlasts : Lasting (fun _ => True) fun s => s.Filtered t x :=
    { collect := fun _ _ hs => hs
      store := fun _ _ _ _ _ _ hs => hs }
  exact hlasts.keeps_styleElement trivial parent history _ _ _ _ _ hfilter h

end Styler

/-- What a visit stores stays, as the elements that are visited later have other keys. -/
theorem Walk.stored {t : StyledTree ε} {past vs : List (Visit ε)} {p p' : PassState}
    (h : Walk t past p vs p') (hkeys : (vs.map fun v => t.key v.element).Nodup) :
    ∀ v ∈ vs, p'.styler.styles[t.key v.element]? = v.out.map Prod.fst := by
  induction h with
  | stop => exact fun v hv => absurd hv List.not_mem_nil
  | @visit past vs p p' v _ _ hstyle hwalk ih =>
    rw [List.map_cons, List.nodup_cons] at hkeys
    refine List.forall_mem_cons.mpr ⟨?_, ih hkeys.2⟩
    rw [hwalk.styles_eq fun u hu heq => hkeys.1 (List.mem_map.mpr ⟨u, hu, heq⟩)]
    exact (Styler.out_of_styleElement hstyle).2

/-! ## Branches -/

namespace StyledTree

mutual
theorem met_sublist (t : StyledTree ε) (b : Branch ε) : (t.met b).Sublist b.elements := by
  match b with
  | .node e cs =>
    rw [met, Branch.elements]
    refine .cons_cons e ?_
    split
    · exact metOfAll_sublist t cs
    · exact List.nil_sublist _
theorem metOfAll_sublist (t : StyledTree ε) (bs : List (Branch ε)) :
    (t.metOfAll bs).Sublist (Branch.elementsOfAll bs) := by
  match bs with
  | [] => rw [metOfAll, Branch.elementsOfAll]
  | b :: bs =>
    rw [metOfAll, Branch.elementsOfAll]
    exact (met_sublist t b).append (metOfAll_sublist t bs)
end

/-- A pass meets no element twice. -/
theorem Lawful.nodup_met {t : StyledTree ε} (ht : t.Lawful) (e : ε) : (t.met (t.branch e)).Nodup :=
  (ht.nodup_elements e).sublist (t.met_sublist _)

theorem Lawful.nodup_keys_met {t : StyledTree ε} (ht : t.Lawful) (hkeys : t.KeysDistinct) (e : ε) :
    ((t.met (t.branch e)).map t.key).Nodup :=
  (ht.nodup_met e).map fun _ _ h => hkeys h

end StyledTree

/-- An element whose children are about to be styled: it has its style, and the filter holds it. -/
structure StyledTree.Entered (t : StyledTree ε) (past : List (Visit ε)) (e : ε)
    (style : ComputedStyle) (p : PassState) : Prop where
  stored : p.styler.styles[t.key e]? = some style
  filter : p.styler.FilteredBelow t e
  visited : ∃ v ∈ past, v.element = e ∧ ∃ history, v.out = some (style, history)

namespace Styler

open PassM

variable {t : StyledTree ε}

mutual
/-- A pass over a branch is a walk over the elements that are met in it. -/
theorem goes_styleBranch (ht : t.Lawful) (hkeys : t.KeysDistinct) (b : Branch ε)
    (hb : t.branch b.element = b) {past : List (Visit ε)} {p : PassState}
    {parent : Option ComputedStyle} {history : SiblingHistory}
    (hready : (⟨b.element, parent, history, p⟩ : Station ε).Ready t past) :
    (styleBranch t parent history b).Goes t past p (t.met b) fun history' vs p' =>
      history'.LeftBy (vs.reverse ++ past) (b.element :: t.preceding b.element) ∧
        p'.styler.Filtered t b.element := by
  match b with
  | .node e cs =>
    have hmet : t.met (.node e cs) = [e] ++ if t.isConnected e then t.metOfAll cs else [] := by
      rw [StyledTree.met]
      rfl
    rw [styleBranch, hmet]
    refine (goes_styleElement hready).bind fun out vs p₁ _ _ hvisit => ?_
    obtain ⟨rfl, hstyle⟩ := hvisit
    have hsome : out.isSome = t.isConnected e := (out_of_styleElement hstyle).1
    have hfilter : p₁.styler.Filtered t e := filtered_of_styleElement hready.filter hstyle
    match out with
    | none =>
      rw [if_neg (by simp [← hsome])]
      refine .of_idle rfl (.refl p₁) ⟨hready.history.mono ?_ ?_, hfilter⟩
      · simp
      · exact List.subset_cons_self e _
    | some (style, history') =>
      have hconnected : t.isConnected e = true := hsome.symm
      rw [if_pos hconnected]
      dsimp only
      have hchildren : (t.branch e).children = [] ++ cs := congrArg Branch.children hb
      let v : Visit ε := ⟨⟨e, parent, history, p⟩, some (style, history'), p₁⟩
      have hstored : p₁.styler.styles[t.key e]? = some style :=
        (out_of_styleElement hstyle).2
      have hentered : t.Entered (v :: past) e style
          ⟨{ p₁.styler with filter := p₁.styler.filter.push p₁.styler.digest t.toElementTree e },
            p₁.report⟩ :=
        { stored := hstored
          filter := hfilter.push
          visited := ⟨v, List.mem_cons_self, rfl, history', rfl⟩ }
      refine .of_run_bind rfl ⟨_, _, rfl⟩ (.of_run_bind rfl (.refl _) ?_)
      rw [← List.append_nil (t.metOfAll cs)]
      refine (goes_styleChildren ht hkeys cs hchildren hentered (.inl rfl)).bind
        fun _ vs p₂ _ _ hbelow => ?_
      refine .of_run_bind rfl ⟨_, _, rfl⟩ (.of_idle rfl (.refl _) ⟨.inr ⟨v, ?_, ?_⟩, ?_⟩)
      · exact List.mem_append_left _
          (List.mem_reverse.mpr (List.mem_append_left _ List.mem_cons_self))
      · exact ⟨List.mem_cons_self, style, rfl⟩
      · exact hbelow.pop
theorem goes_styleChildren (ht : t.Lawful) (hkeys : t.KeysDistinct) {e : ε}
    {style : ComputedStyle} {before : List (Branch ε)} (bs : List (Branch ε))
    (hchildren : (t.branch e).children = before ++ bs) {past : List (Visit ε)} {p : PassState}
    {history : SiblingHistory} (hentered : t.Entered past e style p)
    (hhistory : history.LeftBy past (before.map Branch.element).reverse) :
    (styleChildren t style history bs).Goes t past p (t.metOfAll bs) fun _ _ p' =>
      p'.styler.FilteredBelow t e := by
  match bs with
  | [] =>
    rw [styleChildren, StyledTree.metOfAll]
    exact .of_idle rfl (.refl p) hentered.filter
  | b :: bs =>
    have hb : b ∈ (t.branch e).children := by simp [hchildren]
    obtain ⟨hbranch, hup⟩ := ht.branch_child hb
    have hpreceding := (ht.siblings_child hchildren).1
    rw [styleChildren, StyledTree.metOfAll]
    refine .of_run_bind rfl ⟨_, _, rfl⟩ ?_
    have hready : Station.Ready t past ⟨b.element, some style, history, ⟨{ p.styler with
        dependencies := p.styler.dependencies.forget (t.key b.element) }, p.report⟩⟩ := by
      have hparent : t.parent? b.element = some e := by
        rw [ElementTree.parent?, hup, List.head?_cons]
      refine ⟨?_, ?_, hpreceding ▸ hhistory, .inr ?_⟩
      · rw [Styler.parentStyle, hparent]
        simp only [hentered.stored]
      · exact (filtered_child_iff ht hb).mpr hentered.filter
      · obtain ⟨v, hv, rfl, history', hout⟩ := hentered.visited
        exact ⟨v, hv, hparent, style, history', hout, rfl⟩
    refine (goes_styleBranch ht hkeys b hbranch hready).bind
      fun history' vs p' hvs hwalk hpost => ?_
    have hentered' : t.Entered (vs.reverse ++ past) e style p' := by
      refine ⟨?_, (filtered_child_iff ht hb).mp hpost.2, ?_⟩
      · -- No element of the branch has the key of its parent.
        rw [hwalk.styles_eq fun v hv heq => ?_]
        · exact hentered.stored
        · have hmem : v.element ∈ b.elements :=
            (t.met_sublist b).subset (hvs ▸ List.mem_map_of_mem hv)
          have hve : v.element = e := hkeys heq
          have hnodup := ht.nodup_elements e
          rw [ht.elements_branch, List.nodup_cons] at hnodup
          exact hnodup.1 (List.mem_flatMap.mpr ⟨b, hb, hve ▸ hmem⟩)
      · obtain ⟨v, hv, hrest⟩ := hentered.visited
        exact ⟨v, List.mem_append_right _ hv, hrest⟩
    have hhistory' : history'.LeftBy (vs.reverse ++ past)
        ((before ++ [b]).map Branch.element).reverse := by
      simpa [hpreceding] using hpost.1
    refine goes_styleChildren ht hkeys bs (by rw [hchildren, List.append_assoc]; rfl) hentered'
      hhistory'
end

end Styler

end StyleEngine
