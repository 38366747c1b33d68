import StyleEngine.Proofs.Matching.Epoch
import StyleEngine.Proofs.Pass.Element

/-!
# What earlier passes leave

Whatever was asked of a styler before, it still has its settings and the rules that were installed
last, and its cache holds no answer from a later pass. The documents may have been any.

## Main definitions

* `Styler.Lasting`, `Styler.Enduring`: what lasts through the styling of an element, and through a
  pass.
* `Styler.Unmoved`: what does not change between the elements of a pass.
* `Styler.Reachable`: a styler after any passes, changes of the sheets, and removals.
* `Styler.Resting`: what holds of such a styler.

## Main statements

* `Styler.Unmoved.restyle`: what the styling of elements keeps is kept by a pass.
* `Styler.styles_restyle`: a pass stores styles for the branch of its element only.
* `Styler.Reachable.resting`: a styler that can be reached is at rest.
-/

namespace StyleEngine

/-! ## Steps of a pass -/

/-- A step that leaves `P` true if it comes to an end. -/
def PassM.Keeps {α : Type} (P : Styler → Prop) (x : PassM α) : Prop :=
  ∀ s r a s' r', P s → x.run ⟨s, r⟩ = .ok (a, ⟨s', r'⟩) → P s'

namespace PassM

variable {α β : Type} {P : Styler → Prop}

theorem keeps_lift (x : Except StyleError α) : (liftM x : PassM α).Keeps P := by
  intro s r a s' r' hs h
  obtain ⟨-, ⟨⟩⟩ := run_lift_eq_ok_iff.mp h
  exact hs

theorem keeps_pure (a : α) : (pure a : PassM α).Keeps P :=
  keeps_lift (.ok a)

theorem Keeps.bind {x : PassM α} {f : α → PassM β} (hx : x.Keeps P) (hf : ∀ a, (f a).Keeps P) :
    (x >>= f).Keeps P := by
  intro s r b s' r' hs h
  obtain ⟨a, ⟨s'', r''⟩, hrun, hrun'⟩ := exists_of_run_bind h
  exact hf a s'' r'' b s' r' (hx s r a s'' r'' hs hrun) hrun'

/-- What is read from the styler is as good as the styler. -/
theorem keeps_styler_bind {f : Styler → PassM β} (hf : ∀ s, P s → (f s).Keeps P) :
    (PassM.styler >>= f).Keeps P := by
  intro s r b s' r' hs h
  rw [run_bind_of_ok (run_styler _)] at h
  exact hf s hs s r b s' r' hs h

theorem keeps_modifyStyler {f : Styler → Styler} (hf : ∀ s, P s → P (f s)) :
    (modifyStyler f).Keeps P := by
  intro s r a s' r' hs h
  obtain ⟨-, hstate⟩ := Prod.mk.inj (Except.ok.inj h)
  obtain ⟨rfl, -⟩ := PassState.mk.inj hstate
  exact hf s hs

theorem keeps_modifyReport (f : Report → Report) : (modifyReport f).Keeps P := by
  intro s r a s' r' hs h
  obtain ⟨-, hstate⟩ := Prod.mk.inj (Except.ok.inj h)
  obtain ⟨rfl, -⟩ := PassState.mk.inj hstate
  exact hs

end PassM

open PassM

namespace Styler

variable {ε : Type}

/-! ## What lasts through a pass -/

/-- A property of stylers that lasts while declarations are collected and styles are stored under
`touched` keys. It does not hang on notes, differences or stamps. -/
structure Lasting (touched : ElementKey → Prop) (P : Styler → Prop) : Prop where
  collect : ∀ {ε : Type} {s : Styler} (t : StyledTree ε) (e : ε), P s → P (s.collect t e).2
  store : ∀ {s : Styler} (dependencies : DependencyTable)
    (styles : Std.HashMap ElementKey ComputedStyle)
    (differences : Std.HashMap ElementKey Difference) (rootFontSize : Float32) (stamp : Stamp),
    (∀ key, ¬touched key → styles[key]? = s.styles[key]?) → P s →
    P { s with
        dependencies := dependencies
        styles := styles
        differences := differences
        rootFontSize := rootFontSize
        stamp := stamp }

/-- A property that lasts and does not hang on the filter either. -/
structure Enduring (touched : ElementKey → Prop) (P : Styler → Prop) : Prop
    extends Lasting touched P where
  move : ∀ {s : Styler} (filter : AncestorFilter Digest), P s → P { s with filter := filter }

section Lasting

variable {touched : ElementKey → Prop} {P : Styler → Prop} (h : Lasting touched P)

include h

theorem Lasting.keeps_applyFresh (c : StyleContext) (es : List Entry) :
    (applyFresh c es).Keeps P :=
  keeps_styler_bind fun _ _ => (keeps_modifyStyler fun s hs =>
    h.store s.dependencies s.styles s.differences s.rootFontSize _ (fun _ _ => rfl)
      hs).bind fun _ => keeps_lift _

theorem Lasting.keeps_attachPseudos (c : StyleContext) (collected : Collected)
    (ps : List PseudoElement) (style : ComputedStyle) :
    (attachPseudos c collected ps style).Keeps P := by
  induction ps generalizing style with
  | nil => exact keeps_pure style
  | cons p ps ih =>
    rw [attachPseudos]
    refine (h.keeps_applyFresh _ _).bind fun pseudo => ?_
    split
    · exact (keeps_lift _).bind fun style => ih style
    · exact ih style

omit h in
theorem keeps_compact (key : ElementKey) (signature : Signature) (parent : Option ComputedStyle)
    (history : SiblingHistory) (style : ComputedStyle) :
    (compact key signature parent history style).Keeps P := by
  refine keeps_styler_bind fun s _ => ?_
  dsimp only
  split
  · exact (keeps_modifyReport _).bind fun _ => keeps_pure _
  · exact keeps_pure _
  · exact keeps_pure _

theorem Lasting.keeps_commit {key : ElementKey} (hkey : touched key) (isRoot : Bool)
    (style : ComputedStyle) : (commit key isRoot style).Keeps P :=
  keeps_styler_bind fun _ _ => (keeps_modifyReport _).bind fun _ => keeps_modifyStyler fun s =>
    h.store s.dependencies _ _ _ s.stamp fun key' hkey' => by
      rw [Std.HashMap.getElem?_insert, if_neg]
      rintro heq
      exact hkey' (beq_iff_eq.mp heq ▸ hkey)

theorem Lasting.keeps_styleElement {t : StyledTree ε} {e : ε} (hkey : touched (t.key e))
    (parent : Option ComputedStyle) (history : SiblingHistory) :
    (styleElement t parent history e).Keeps P := by
  refine keeps_styler_bind fun s hs => ?_
  have hcollected := h.collect t e hs
  refine (keeps_modifyStyler fun _ _ => hcollected).bind fun _ => ?_
  refine (h.keeps_applyFresh _ _).bind fun style => ?_
  refine (h.keeps_attachPseudos _ _ _ _).bind fun style => ?_
  have hcommit (style : ComputedStyle) (history : SiblingHistory) :
      (do
        commit (t.key e) (t.isRoot e) style
        pure (some (style, history)) : PassM _).Keeps P :=
    (h.keeps_commit hkey _ _).bind fun _ => keeps_pure _
  split
  · split
    · exact (keeps_compact _ _ _ _ _).bind fun _ => hcommit _ _
    · exact hcommit style history
  · refine (keeps_modifyStyler fun s => ?_).bind fun _ =>
      (keeps_modifyReport _).bind fun _ => keeps_pure _
    refine h.store _ _ _ s.rootFontSize s.stamp fun key' hkey' => ?_
    rw [Std.HashMap.getElem?_erase, if_neg]
    rintro heq
    exact hkey' (beq_iff_eq.mp heq ▸ hkey)

end Lasting

/-! ## From elements to passes -/

/-- A property of stylers that hangs neither on what was noted nor on the filter. -/
structure Unmoved (P : Styler → Prop) : Prop where
  move : ∀ {s : Styler} (dependencies : DependencyTable) (filter : AncestorFilter Digest),
    P s → P { s with dependencies := dependencies, filter := filter }

section Unmoved

variable {P : Styler → Prop}

mutual
/-- What is kept by styling each element of a branch is kept by styling the branch: between the
elements only the notes and the filter change. -/
theorem Unmoved.keeps_styleBranch (hP : Unmoved P) (t : StyledTree ε) (b : Branch ε)
    (h : ∀ x ∈ b.elements, ∀ parent history, (styleElement t parent history x).Keeps P)
    (parent : Option ComputedStyle) (history : SiblingHistory) :
    (styleBranch t parent history b).Keeps P := by
  match b with
  | .node e children =>
    rw [Branch.elements, List.forall_mem_cons] at h
    rw [styleBranch]
    refine (h.1 parent history).bind fun styled => ?_
    match styled with
    | none => exact keeps_pure history
    | some (style, history) =>
      refine (keeps_modifyStyler fun s => hP.move s.dependencies _).bind fun _ => ?_
      refine keeps_styler_bind fun s _ => ?_
      refine (hP.keeps_styleChildren t children h.2 style (.empty s.settings.scanLimit)).bind
        fun _ => ?_
      exact (keeps_modifyStyler fun s => hP.move s.dependencies _).bind fun _ => keeps_pure history
theorem Unmoved.keeps_styleChildren (hP : Unmoved P) (t : StyledTree ε) (bs : List (Branch ε))
    (h : ∀ x ∈ Branch.elementsOfAll bs, ∀ parent history,
      (styleElement t parent history x).Keeps P) (parent : ComputedStyle)
    (history : SiblingHistory) : (styleChildren t parent history bs).Keeps P := by
  match bs with
  | [] =>
    rw [styleChildren]
    exact keeps_pure ()
  | b :: bs =>
    rw [Branch.elementsOfAll, List.forall_mem_append] at h
    rw [styleChildren]
    refine (keeps_modifyStyler fun s => hP.move _ s.filter).bind fun _ => ?_
    refine (hP.keeps_styleBranch t b h.1 (some parent) history).bind fun history => ?_
    exact hP.keeps_styleChildren t bs h.2 parent history
end

end Unmoved

/-- A pass that comes to an end has styled the branch of its element, below the style that was
stored for the parent. -/
theorem exists_run_of_restyle {s s' : Styler} {r : Report} {t : StyledTree ε} {e : ε}
    (hrun : s.restyle t e = .ok (s', r)) :
    ∃ parent history, s.parentStyle t e = .ok parent ∧
      (styleBranch t parent (.empty s.settings.scanLimit) (t.branch e)).run
        ⟨s.beginPass t e, .empty⟩ = .ok (history, ⟨s', r⟩) := by
  unfold Styler.restyle at hrun
  split at hrun
  · split at hrun
    · cases hrun
    · next parent hparent =>
      dsimp only at hrun
      split at hrun
      · next history p hpass =>
        obtain ⟨rfl, rfl⟩ := Prod.mk.inj (Except.ok.inj hrun)
        exact ⟨parent, history, hparent, hpass⟩
      · cases hrun
  · cases hrun

/-- A pass comes to an end only over an element of the document. -/
theorem isConnected_of_restyle {s s' : Styler} {r : Report} {t : StyledTree ε} {e : ε}
    (hrun : s.restyle t e = .ok (s', r)) : t.isConnected e = true := by
  by_contra hcut
  rw [Styler.restyle, if_neg hcut] at hrun
  cases hrun

/-- What holds at the start of a pass, and is kept by styling each element of its branch, holds at
its end. -/
theorem Unmoved.restyle {P : Styler → Prop} (hP : Unmoved P) {s s' : Styler} {r : Report}
    {t : StyledTree ε} {e : ε} (h : ∀ x ∈ (t.branch e).elements,
      ∀ parent history, (styleElement t parent history x).Keeps P) (hs : P (s.beginPass t e))
    (hrun : s.restyle t e = .ok (s', r)) : P s' := by
  obtain ⟨parent, history, -, hpass⟩ := exists_run_of_restyle hrun
  exact hP.keeps_styleBranch t (t.branch e) h parent _ _ _ _ _ _ hs hpass

namespace Enduring

variable {touched : ElementKey → Prop} {P : Styler → Prop} (h : Enduring touched P)

include h

theorem unmoved : Unmoved P where
  move {s} dependencies filter hs := h.move filter <|
    h.store dependencies s.styles s.differences s.rootFontSize s.stamp (fun _ _ => rfl) hs

/-- What holds at the start of a pass, and lasts through it, holds at its end. -/
theorem restyle {s s' : Styler} {r : Report} {t : StyledTree ε} {e : ε}
    (hkeys : ∀ x ∈ (t.branch e).elements, touched (t.key x)) (hs : P (s.beginPass t e))
    (hrun : s.restyle t e = .ok (s', r)) : P s' :=
  h.unmoved.restyle (fun x hx => h.keeps_styleElement (hkeys x hx)) hs hrun

end Enduring

/-- A pass over an element stores styles under the keys of its branch only. -/
theorem styles_restyle {s s' : Styler} {r : Report} {t : StyledTree ε} {e : ε} {key : ElementKey}
    (hkey : ∀ x ∈ (t.branch e).elements, t.key x ≠ key) (hrun : s.restyle t e = .ok (s', r)) :
    s'.styles[key]? = s.styles[key]? := by
  have hendures : Enduring (· ≠ key) fun s' => s'.styles[key]? = s.styles[key]? :=
    { collect := fun _ _ hs => hs
      store := fun _ _ _ _ _ hstyles hs => (hstyles key fun hne => hne rfl).trans hs
      move := fun _ hs => hs }
  exact hendures.restyle hkey rfl hrun

/-! ## Stylers at rest -/

/-- A styler with the given settings, rules and digests, whose cache has no answer from a later
pass. -/
structure Resting (settings : Settings) (metrics : FontMetrics) (index : RuleIndex)
    (digest : Feature → Digest) (s : Styler) : Prop
    extends s.SetUp settings metrics index digest where
  dated : s.cache.Dated

variable {settings : Settings} {metrics : FontMetrics} {index : RuleIndex}
  {digest : Feature → Digest} {s : Styler}

theorem Resting.collect (h : s.Resting settings metrics index digest) (t : StyledTree ε) (e : ε) :
    (s.collect t e).2.Resting settings metrics index digest := by
  have hdated : ∀ c ∈ some s.cache, c.Dated := by
    rintro c ⟨⟩
    exact h.dated
  obtain ⟨-, -, hkept⟩ := RuleIndex.unread_collect MatchCache.lasting_dated s.digest (some s.filter)
    s.index t e ⟨some s.cache, some s.dependencies⟩ _ rfl hdated
  rw [collect_eq]
  refine ⟨{ h.toSetUp with }, ?_⟩
  dsimp only
  generalize ((s.index.collect s.digest (some s.filter) t e).run _).2 = m at hkept
  cases hm : m.cache with
  | none => exact h.dated
  | some c => exact hkept c hm

theorem enduring_resting : Enduring (fun _ => True) (Resting settings metrics index digest) where
  collect t e h := h.collect t e
  store _ _ _ _ _ _ h := ⟨{ h.toSetUp with }, h.dated⟩
  move _ h := ⟨{ h.toSetUp with }, h.dated⟩

/-- A styler is at rest at the start of a pass. -/
theorem Resting.beginPass (h : s.Resting settings metrics index digest) (t : StyledTree ε) (e : ε) :
    (s.beginPass t e).Resting settings metrics index digest :=
  ⟨{ h.toSetUp with }, h.dated.beginPass⟩

theorem Resting.restyle (h : s.Resting settings metrics index digest) {t : StyledTree ε} {e : ε}
    {s' : Styler} {r : Report} (hrun : s.restyle t e = .ok (s', r)) :
    s'.Resting settings metrics index digest :=
  enduring_resting.restyle (fun _ _ => trivial) (h.beginPass t e) hrun

/-! ## Reachable stylers -/

/-- A styler that the given sheets were installed in last, after any passes over any documents, any
changes of the sheets, and any removals of elements. Its digests may be any, so features may look
alike to its filter. -/
inductive Reachable (settings : Settings) (metrics : FontMetrics) :
    SheetSet → Medium → Styler → Prop
  | create (set : SheetSet) (m : Medium) (digest : Feature → Digest) :
    Reachable settings metrics set m (.create settings metrics set m digest)
  | restyle {set : SheetSet} {m : Medium} {s s' : Styler} {r : Report} {ε : Type}
    (t : StyledTree ε) (e : ε) : Reachable settings metrics set m s →
    s.restyle t e = .ok (s', r) → Reachable settings metrics set m s'
  | replaceSheets {set : SheetSet} {m : Medium} {s : Styler} (set' : SheetSet) (m' : Medium) :
    Reachable settings metrics set m s →
    Reachable settings metrics set' m' (s.replaceSheets set' m')
  | forget {set : SheetSet} {m : Medium} {s : Styler} (key : ElementKey) :
    Reachable settings metrics set m s → Reachable settings metrics set m (s.forget key)

/-- A styler that can be reached is at rest, with the rules of the sheets installed last. -/
theorem Reachable.resting {set : SheetSet} {m : Medium}
    (h : Reachable settings metrics set m s) :
    s.Resting settings metrics (.build set m) s.digest := by
  induction h with
  | create set m digest => exact ⟨⟨rfl, rfl, rfl, rfl, rfl⟩, MatchCache.dated_empty⟩
  | restyle t e _ hrun ih =>
    have hresting := ih.restyle hrun
    rwa [← hresting.digest] at hresting
  | replaceSheets set' m' _ ih =>
    exact ⟨{ ih.toSetUp with index := rfl }, MatchCache.dated_clear _⟩
  | forget key _ ih => exact ⟨{ ih.toSetUp with }, ih.dated⟩

end Styler

end StyleEngine
