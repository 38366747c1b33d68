import StyleEngine.Proofs.Computation.Adjust
import StyleEngine.Proofs.Pass.FontSize

/-!
# Adjusted styles in a pass

A pass stores a style that it has computed, with groups taken over from other styles. Groups that are
taken over are equal, so the style stays adjusted for the element that it was computed for, and so do
the styles of its pseudo-elements, none of which is the root.

## Main definitions

* `ComputedStyle.Adjusted`: a style that is adjusted together with its pseudo-elements.
* `PassM.Gives`: a step that keeps what holds of the styler and says something about its answer.
* `Styler.Stores`: all styles that a styler stores are so.

## Main statements

* `Styler.Reachable.adjusted_styles`: all styles that are ever stored are adjusted.
-/

namespace StyleEngine

variable {ε : Type}

namespace ComputedStyle

/-- A style that is adjusted, and in it the styles of pseudo-elements, which are not for the root. -/
structure Adjusted (isRoot : Bool) (s : ComputedStyle) : Prop where
  own : s.own.Adjusted isRoot
  pseudo : ∀ entry ∈ s.pseudos, ∀ own, entry.2.Part own → own.Adjusted false

variable {isRoot : Bool} {s : ComputedStyle}

theorem Adjusted.of_part (h : s.Adjusted false) {own : OwnStyle} (hpart : s.Part own) :
    own.Adjusted false := by
  rcases part_iff.mp hpart with rfl | ⟨entry, hentry, hpart⟩
  · exact h.own
  · exact h.pseudo entry hentry own hpart

/-- An attached style is not for the root. -/
theorem Adjusted.attach (h : s.Adjusted isRoot) {style s' : ComputedStyle}
    (hstyle : style.Adjusted false) (hattach : s.attach style = .ok s') : s'.Adjusted isRoot := by
  unfold ComputedStyle.attach at hattach
  split at hattach
  · obtain rfl := Except.ok.inj hattach
    refine ⟨h.own, fun entry hentry own hpart => ?_⟩
    rcases mem_putPseudo hentry with rfl | hentry
    · exact hstyle.of_part hpart
    · exact h.pseudo entry hentry own hpart
  · cases hattach

/-- Groups are taken over if they are equal. -/
theorem Adjusted.compactWith (h : s.Adjusted isRoot) (similar : ComputedStyle) :
    (s.compactWith similar).Adjusted isRoot where
  own := h.own.of_plainForm (own_eq_of_plainForm (s.plainForm_compactWith similar))
  pseudo := h.pseudo

end ComputedStyle

/-- Declarations come to an adjusted style, if they start from one without pseudo-elements. -/
theorem StyleContext.computed_apply {c : StyleContext} (hc : c.initial.pseudos = []) {stamp : Stamp}
    {ds : List Declaration} {s : ComputedStyle} (h : c.apply stamp ds = .ok s) :
    s.Adjusted c.isRoot where
  own := adjusted_apply h
  pseudo entry hentry := by
    rw [pseudos_apply h, hc] at hentry
    cases hentry

/-! ## Steps of a pass -/

/-- A step that leaves `P` true and comes to an answer of `Q`, if it comes to an end. -/
def PassM.Gives {α : Type} (P : Styler → Prop) (x : PassM α) (Q : α → Prop) : Prop :=
  ∀ s r a s' r', P s → x.run ⟨s, r⟩ = .ok (a, ⟨s', r'⟩) → P s' ∧ Q a

namespace PassM

variable {α β : Type} {P : Styler → Prop} {Q : α → Prop} {Q' : β → Prop}

theorem gives_lift {x : Except StyleError α} (h : ∀ a, x = .ok a → Q a) :
    (liftM x : PassM α).Gives P Q := by
  intro s r a s' r' hs hrun
  obtain ⟨hx, ⟨⟩⟩ := run_lift_eq_ok_iff.mp hrun
  exact ⟨hs, h a hx⟩

theorem gives_pure {a : α} (h : Q a) : (pure a : PassM α).Gives P Q := by
  refine gives_lift (x := .ok a) ?_
  rintro _ ⟨⟩
  exact h

theorem Keeps.gives {x : PassM α} (h : x.Keeps P) : x.Gives P fun _ => True :=
  fun s r a s' r' hs hrun => ⟨h s r a s' r' hs hrun, trivial⟩

theorem Gives.keeps {x : PassM α} (h : x.Gives P Q) : x.Keeps P :=
  fun s r a s' r' hs hrun => (h s r a s' r' hs hrun).1

theorem Gives.bind {x : PassM α} {f : α → PassM β} (hx : x.Gives P Q)
    (hf : ∀ a, Q a → (f a).Gives P Q') : (x >>= f).Gives P Q' := by
  intro s r b s'' r'' hs hrun
  obtain ⟨a, ⟨s', r'⟩, hrun, hrun'⟩ := exists_of_run_bind hrun
  obtain ⟨hs', ha⟩ := hx s r a s' r' hs hrun
  exact hf a ha s' r' b s'' r'' hs' hrun'

theorem gives_styler_bind {f : Styler → PassM β} (hf : ∀ s, P s → (f s).Gives P Q') :
    (PassM.styler >>= f).Gives P Q' := by
  intro s r b s' r' hs hrun
  rw [run_bind_of_ok (run_styler _)] at hrun
  exact hf s hs s r b s' r' hs hrun

end PassM

open PassM

namespace Styler

/-- New styles start without pseudo-elements, and each style that is stored is as its key asks. -/
structure Stores (Q : ElementKey → ComputedStyle → Prop) (s : Styler) : Prop where
  bare : s.initial.pseudos = []
  stored : ∀ {key : ElementKey} {style : ComputedStyle}, s.styles[key]? = some style → Q key style

variable {Q : ElementKey → ComputedStyle → Prop} {isRoot : Bool} {style : ComputedStyle}

theorem Stores.forget {s : Styler} (h : s.Stores Q) (key : ElementKey) : (s.forget key).Stores Q where
  bare := h.bare
  stored {key' style} hstored := by
    rw [Styler.forget, Std.HashMap.getElem?_erase] at hstored
    split at hstored
    · cases hstored
    · exact h.stored hstored

theorem gives_applyFresh {c : StyleContext} (hc : c.initial.pseudos = []) (es : List Entry) :
    (applyFresh c es).Gives (Stores Q) (·.Adjusted c.isRoot) :=
  gives_styler_bind fun _ _ => (keeps_modifyStyler fun _ hs => ⟨hs.bare, hs.stored⟩).gives.bind
    fun _ _ => gives_lift fun _ happly => StyleContext.computed_apply hc happly

/-- The styles of pseudo-elements are computed as for no root. -/
theorem gives_attachPseudos {c : StyleContext} (hc : c.initial.pseudos = []) (collected : Collected)
    (ps : List PseudoElement) (h : style.Adjusted isRoot) :
    (attachPseudos c collected ps style).Gives (Stores Q) (·.Adjusted isRoot) := by
  induction ps generalizing style with
  | nil => exact gives_pure h
  | cons p ps ih =>
    rw [attachPseudos]
    refine (gives_applyFresh (Q := Q)
      (c := { c with parent := some style, pseudo := some p, isRoot := false }) hc _).bind
        fun pseudo hpseudo => ?_
    split
    · exact (gives_lift fun _ hattach => h.attach hpseudo hattach).bind fun _ hstyle => ih hstyle
    · exact ih h

theorem gives_compact (key : ElementKey) (signature : Signature) (parent : Option ComputedStyle)
    (history : SiblingHistory) (h : style.Adjusted isRoot) :
    (compact key signature parent history style).Gives (Stores Q) (·.1.Adjusted isRoot) := by
  refine gives_styler_bind fun s _ => ?_
  dsimp only
  split
  · exact (keeps_modifyReport _).gives.bind fun _ _ => gives_pure (h.compactWith _)
  · exact gives_pure (h.compactWith _)
  · exact gives_pure h

theorem keeps_commit {key : ElementKey} (h : Q key style) :
    (commit key isRoot style).Keeps (Stores Q) := by
  refine keeps_styler_bind fun s _ => (keeps_modifyReport _).bind fun _ =>
    keeps_modifyStyler fun s hs => ⟨hs.bare, fun {key' style'} hstored => ?_⟩
  rw [Std.HashMap.getElem?_insert] at hstored
  split at hstored
  · next heq =>
    obtain rfl := Option.some.inj hstored
    exact eq_of_beq heq ▸ h
  · exact hs.stored hstored

theorem unmoved_stores : Unmoved (Stores Q) :=
  ⟨fun _ _ hs => ⟨hs.bare, hs.stored⟩⟩

/-- What is stored for an element is adjusted for it. -/
theorem keeps_styleElement {t : StyledTree ε} {e : ε}
    (h : ∀ style : ComputedStyle, style.Adjusted (t.isRoot e) → Q (t.key e) style)
    (parent : Option ComputedStyle) (history : SiblingHistory) :
    (styleElement t parent history e).Keeps (Stores Q) := by
  refine keeps_styler_bind fun s hs => ?_
  have hcollected : (s.collect t e).2.Stores Q := ⟨hs.bare, hs.stored⟩
  refine (keeps_modifyStyler fun _ _ => hcollected).bind fun _ => Gives.keeps (Q := fun _ => True) ?_
  refine (gives_applyFresh hcollected.bare _).bind fun bare hbare => ?_
  refine (gives_attachPseudos hcollected.bare _ _ hbare).bind fun full hfull => ?_
  have hcommit {style : ComputedStyle} (hstyle : style.Adjusted (t.isRoot e))
      (history : SiblingHistory) :
      (do
        commit (t.key e) (t.isRoot e) style
        pure (some (style, history)) : PassM _).Gives (Stores Q) fun _ => True :=
    (keeps_commit (h style hstyle)).gives.bind fun _ _ => gives_pure trivial
  split
  · split
    · exact (gives_compact _ _ _ _ hfull).bind fun out hout => hcommit hout out.2
    · exact hcommit hfull history
  · refine (keeps_modifyStyler fun s hs => hs.forget _).gives.bind fun _ _ => ?_
    exact (keeps_modifyReport _).gives.bind fun _ _ => gives_pure trivial

/-! ## Passes -/

variable {s s' : Styler} {r : Report}

/-- A pass stores styles for the elements of its branch, each adjusted for its element. -/
theorem adjusted_restyle {t : StyledTree ε} {e : ε} (hbare : s.initial.pseudos = [])
    (hrun : s.restyle t e = .ok (s', r)) {key : ElementKey} {style : ComputedStyle}
    (hstored : s'.styles[key]? = some style) :
    s.styles[key]? = some style ∨
      ∃ x ∈ (t.branch e).elements, t.key x = key ∧ style.Adjusted (t.isRoot x) := by
  let Q (key : ElementKey) (style : ComputedStyle) : Prop :=
    s.styles[key]? = some style ∨
      ∃ x ∈ (t.branch e).elements, t.key x = key ∧ style.Adjusted (t.isRoot x)
  have hstart : (s.beginPass t e).Stores Q := ⟨hbare, .inl⟩
  have hend : s'.Stores Q := unmoved_stores.restyle
    (fun x hx => keeps_styleElement fun style hstyle => .inr ⟨x, hx, rfl, hstyle⟩) hstart hrun
  exact hend.stored hstored

variable {settings : Settings} {metrics : FontMetrics} {set : SheetSet} {m : Medium}

theorem Reachable.initial_pseudos (hs : Reachable settings metrics set m s) :
    s.initial.pseudos = [] := by
  rw [hs.resting.initial]
  rfl

/-- Whatever calls a styler has gone through, each style that it stores was adjusted. -/
theorem Reachable.exists_adjusted (hs : Reachable settings metrics set m s) :
    s.Stores fun _ style => ∃ isRoot, ComputedStyle.Adjusted isRoot style := by
  refine ⟨hs.initial_pseudos, ?_⟩
  induction hs with
  | create set m => simp [Styler.create]
  | restyle t e hs hrun ih =>
    intro key style hstored
    rcases adjusted_restyle hs.initial_pseudos hrun hstored with h | ⟨x, -, -, h⟩
    · exact ih h
    · exact ⟨_, h⟩
  | replaceSheets set' m' _ ih => exact ih
  | forget key hs ih => exact (Stores.forget ⟨hs.initial_pseudos, ih⟩ key).stored

/-- Declarations that fit come to an adjusted style in every context, and adjusting an adjusted style
again changes nothing but the unadjusted display. All styles that a styler stores are adjusted, and
with them their pseudo-elements, like boxes that are not the root. What a pass stores is adjusted as
the element is the root or not. -/
theorem Reachable.adjusted_styles (hs : Reachable settings metrics set m s) :
    (∀ (c : StyleContext) (stamp : Stamp) (ds : List Declaration), (∀ d ∈ ds, d.Fits) →
      ∃ style, c.apply stamp ds = .ok style ∧ style.own.Adjusted c.isRoot) ∧
    (∀ (isRoot : Bool) (own : OwnStyle), own.Adjusted isRoot → ∀ stamp,
      own.adjust stamp isRoot = { own with box.unadjustedDisplay := own.box.display }) ∧
    (∀ (key : ElementKey) (style : ComputedStyle), s.styles[key]? = some style →
      ∃ isRoot, style.Adjusted isRoot) ∧
    ∀ {ε : Type} (t : StyledTree ε) (e : ε) (s' : Styler) (r : Report),
      s.restyle t e = .ok (s', r) → ∀ (key : ElementKey) (style : ComputedStyle),
        s'.styles[key]? = some style → s.styles[key]? = some style ∨
          ∃ x ∈ (t.branch e).elements, t.key x = key ∧ style.Adjusted (t.isRoot x) := by
  refine ⟨fun c stamp ds hfits => ?_, fun isRoot own => OwnStyle.Adjusted.adjust_eq,
    fun key style => hs.exists_adjusted.stored,
    fun t e s' r hrun key style => adjusted_restyle hs.initial_pseudos hrun⟩
  obtain ⟨style, hstyle⟩ := StyleContext.exists_apply hfits c stamp
  exact ⟨style, hstyle, StyleContext.adjusted_apply hstyle⟩

/-- A float, adjusted twice, and the parent of the family. -/
theorem Reachable.adjusted_styles_family :
    let t := Relative.tree fun _ => .none
    let s := Styler.create .default .approximate Relative.sheets .screen
    let c : StyleContext := ⟨.initial 0 16, .default, .approximate, none, none, false, 16⟩
    (∃ style, c.apply 1 [⟨.known .float, .floating .left, false⟩] = .ok style ∧
      style.own.Adjusted false ∧
      style.own.adjust 2 false =
        { style.own with box.unadjustedDisplay := style.own.box.display }) ∧
    ∃ s' r top, s.restyle t .parent = .ok (s', r) ∧ s'.styles[t.key .parent]? = some top ∧
      (∃ isRoot, top.Adjusted isRoot) ∧
      ∃ x ∈ (t.branch .parent).elements, t.key x = t.key .parent ∧ top.Adjusted (t.isRoot x) := by
  intro t s c
  have hs : Reachable .default .approximate Relative.sheets .screen s := .create _ _ _
  obtain ⟨happly, hagain, -, hpass⟩ := hs.adjusted_styles
  have hfits : ∀ d ∈ [(⟨.known .float, .floating .left, false⟩ : Declaration)], d.Fits := by
    intro d hd
    obtain rfl := List.mem_singleton.mp hd
    exact Declaration.fits_of_root rfl
  obtain ⟨style, hstyle, hadjusted⟩ := happly c 1 _ hfits
  obtain ⟨s', r, top, -, hrun, hstored, -, -⟩ := hs.exists_restyle_fontSize
    Relative.countable_sheets Relative.fitting_sheets (Relative.rooted_tree _)
    (Relative.fitting_tree _)
  have hs' : Reachable .default .approximate Relative.sheets .screen s' :=
    hs.restyle t .parent hrun
  refine ⟨⟨style, hstyle, hadjusted, hagain _ _ hadjusted 2⟩, s', r, top, hrun, hstored,
    hs'.adjusted_styles.2.2.1 _ _ hstored, ?_⟩
  rcases hpass t .parent s' r hrun _ _ hstored with hold | hnew
  · simp [s, Styler.create] at hold
  · exact hnew

end Styler

end StyleEngine
