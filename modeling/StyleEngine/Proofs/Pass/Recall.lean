import StyleEngine.Proofs.Pass.Recent
import StyleEngine.Proofs.Pass.Walk

/-!
# What a pass remembers of siblings

A pass remembers the siblings that got a style, as many as the settings say, and looks among these
for one with the signature of the element. An element for which there is none shares the groups of
its parent.

## Main definitions

* `Settings.window`: the elements that are looked at.
* `Station.own`, `Station.Compacts`: the style that is computed for an element, and what it shares
  its groups with.
* `Styler.Recalls`: a history of siblings in the midst of a pass.

## Main statements

* `Station.exists_of_style`: the style that an element gets comes from its own.
* `Styler.Recalls.cons`, `Styler.Recalls.cut`: what is remembered after one more element.
-/

namespace StyleEngine

variable {ε : Type}

/-! ## Windows -/

/-- The elements of `l` among which an alike one is looked for: the first that are connected, as
many as the limit for sharing allows. -/
def Settings.window (c : Settings) (t : StyledTree ε) (l : List ε) : List ε :=
  if c.sharing then (l.filter t.isConnected).take c.scanLimit else []

namespace Settings

variable {c : Settings} {t : StyledTree ε} {l : List ε} {x : ε}

theorem window_subset : c.window t l ⊆ l := by
  unfold window
  split
  · exact fun x hx => List.mem_of_mem_filter (List.mem_of_mem_take hx)
  · exact List.nil_subset _

theorem window_of_off (hsharing : c.sharing = false) : c.window t l = [] := by
  simp [window, hsharing]

theorem length_window_le : (c.window t l).length ≤ c.scanLimit := by
  unfold window
  split
  · exact List.length_take_le _ _
  · exact Nat.zero_le _

theorem window_cons_of_cut (hx : t.isConnected x = false) :
    c.window t (x :: l) = c.window t l := by
  simp [window, hx]

theorem window_cons (hsharing : c.sharing = true) (hx : t.isConnected x = true) :
    c.window t (x :: l) = (x :: c.window t l).take c.scanLimit := by
  rw [window, if_pos hsharing, window, if_pos hsharing, List.filter_cons_of_pos hx]
  cases c.scanLimit with
  | zero => rfl
  | succ n => simp [List.take_take]

end Settings

/-! ## Computing a style -/

/-- A step that changes nothing but the stamp. -/
def PassM.Stamps {α : Type} (x : PassM α) : Prop :=
  ∀ p a p', x.run p = .ok (a, p') → ∃ stamp, p' = ⟨{ p.styler with stamp := stamp }, p.report⟩

namespace PassM

variable {α β : Type}

theorem stamps_lift (x : Except StyleError α) : (liftM x : PassM α).Stamps :=
  fun p _ _ h => ⟨p.styler.stamp, (run_lift_eq_ok_iff.mp h).2⟩

theorem stamps_pure (a : α) : (pure a : PassM α).Stamps :=
  stamps_lift (.ok a)

theorem Stamps.bind {x : PassM α} {f : α → PassM β} (hx : x.Stamps) (hf : ∀ a, (f a).Stamps) :
    (x >>= f).Stamps := by
  intro p b p'' h
  obtain ⟨a, p', hrun, hrun'⟩ := exists_of_run_bind h
  obtain ⟨stamp, rfl⟩ := hx p a p' hrun
  obtain ⟨stamp', rfl⟩ := hf a _ b p'' hrun'
  exact ⟨stamp', rfl⟩

end PassM

namespace Styler

open PassM

theorem stamps_applyFresh (c : StyleContext) (es : List Entry) : (applyFresh c es).Stamps :=
  fun _ _ _ h => ⟨_, (run_applyFresh_eq_ok_iff.mp h).2⟩

theorem stamps_attachPseudos (c : StyleContext) (collected : Collected) (ps : List PseudoElement)
    (style : ComputedStyle) : (attachPseudos c collected ps style).Stamps := by
  induction ps generalizing style with
  | nil => exact stamps_pure style
  | cons q ps ih =>
    rw [attachPseudos]
    refine (stamps_applyFresh _ _).bind fun pseudo => ?_
    split
    · exact (stamps_lift _).bind ih
    · exact ih style

theorem stamps_computeStyle (c : StyleContext) (collected : Collected) :
    (computeStyle c collected).Stamps :=
  (stamps_applyFresh _ _).bind fun style => stamps_attachPseudos _ _ _ style

end Styler

/-! ## Stations -/

namespace Station

/-- The signature of the element. -/
def signature (t : StyledTree ε) (a : Station ε) : Signature :=
  .ofElement t a.element (a.state.styler.collect t a.element).1.matched

/-- What a history holds for the element. -/
def entry (t : StyledTree ε) (a : Station ε) : ElementKey × Signature :=
  (t.key a.element, a.signature t)

/-- The style of the element before it shares groups. -/
def own (t : StyledTree ε) (a : Station ε) : Except StyleError (ComputedStyle × PassState) :=
  let (collected, s) := a.state.styler.collect t a.element
  (Styler.computeStyle (s.contextOf (t.isRoot a.element) a.parent) collected).run
    ⟨s, a.state.report⟩

/-- The element has got a style, which a styler still has. -/
def Committed (t : StyledTree ε) (s : Styler) (a : Station ε) : Prop :=
  ∃ style history p, a.style t = .ok (some (style, history), p) ∧
    s.styles[t.key a.element]? = some style

/-- The style that an element gets if `own` is computed for it and an alike sibling is looked for at
the stations `near`, and what that adds to the number of elements that took over groups. -/
inductive Compacts (t : StyledTree ε) (near : List (Station ε)) (a : Station ε)
    (own : ComputedStyle) : ComputedStyle → Nat → Prop
  /-- The nearest sibling with an equal signature shares its groups. -/
  | sibling {before after : List (Station ε)} {b : Station ε} {similar : ComputedStyle}
    {history : SiblingHistory} {p : PassState} : a.state.styler.settings.sharing = true →
    near = before ++ b :: after → (∀ c ∈ before, (c.signature t == a.signature t) = false) →
    (b.signature t == a.signature t) = true → b.style t = .ok (some (similar, history), p) →
    Compacts t near a own (own.compactWith similar) 1
  /-- If there is none, the parent does. -/
  | parent {parent : ComputedStyle} : a.state.styler.settings.sharing = true →
    (∀ b ∈ near, (b.signature t == a.signature t) = false) → a.parent = some parent →
    Compacts t near a own (own.compactWith parent) 0
  | alone : a.state.styler.settings.sharing = true →
    (∀ b ∈ near, (b.signature t == a.signature t) = false) → a.parent = none →
    Compacts t near a own own 0
  | off : a.state.styler.settings.sharing = false → Compacts t near a own own 0

/-- Where no sibling is looked at, the parent shares its groups, if there is one. -/
theorem Compacts.eq_of_nil {t : StyledTree ε} {a : Station ε} {own style : ComputedStyle} {n : Nat}
    (h : a.Compacts t [] own style n) (hsharing : a.state.styler.settings.sharing = true) :
    style = a.parent.elim own own.compactWith := by
  cases h with
  | sibling _ hnear => simp at hnear
  | parent _ _ hparent => rw [hparent, Option.elim_some]
  | alone _ _ hparent => rw [hparent, Option.elim_none]
  | off hoff => simp [hsharing] at hoff

end Station

/-! ## What is remembered -/

/-- In a pass with the settings `c`, the siblings that are remembered are those in the window on
`l`, in the order of `l`: they got their styles at the stations `near`. -/
structure Styler.Recalls (t : StyledTree ε) (c : Settings) (s : Styler) (near : List (Station ε))
    (l : List ε) (h : SiblingHistory) : Prop where
  settings : s.settings = c
  limit : h.limit = c.scanLimit
  elements : near.map (·.element) = c.window t l
  entries : h.entries = near.map (Station.entry t)
  committed : ∀ b ∈ near, b.Committed t s

namespace Styler.Recalls

variable {t : StyledTree ε} {c : Settings} {s s' : Styler} {near : List (Station ε)} {l : List ε}
  {h : SiblingHistory} {signature : Signature}

/-- Nothing is remembered in the beginning. -/
theorem nil (hsettings : s.settings = c) : s.Recalls t c [] [] (.empty c.scanLimit) where
  settings := hsettings
  limit := rfl
  elements := by simp [Settings.window]
  entries := rfl
  committed _ hb := absurd hb List.not_mem_nil

/-- What is stored elsewhere does not matter. -/
theorem frame (hs : s.Recalls t c near l h) (hsettings : s'.settings = c)
    (hstyles : ∀ x ∈ l, s'.styles[t.key x]? = s.styles[t.key x]?) : s'.Recalls t c near l h where
  settings := hsettings
  limit := hs.limit
  elements := hs.elements
  entries := hs.entries
  committed b hb := by
    obtain ⟨style, history, p, hstyle, hstored⟩ := hs.committed b hb
    have hbl : b.element ∈ l := Settings.window_subset (hs.elements ▸ List.mem_map_of_mem hb)
    exact ⟨style, history, p, hstyle, (hstyles _ hbl).trans hstored⟩

theorem size_le (hs : s.Recalls t c near l h) : h.size ≤ h.limit := by
  rw [SiblingHistory.size, hs.entries, List.length_map, ← List.length_map (f := (·.element)),
    hs.elements, hs.limit]
  exact Settings.length_window_le

/-- The sibling that is found is the nearest one with an equal signature. -/
theorem find?_eq (hs : s.Recalls t c near l h) :
    h.find? signature =
      (near.find? fun b => b.signature t == signature).map fun b => t.key b.element := by
  rw [SiblingHistory.find?, hs.entries, List.find?_map, Option.map_map]
  rfl

end Styler.Recalls

/-! ## Sharing -/

/-- The settings stay as they are. -/
theorem Styler.enduring_settings (c : Settings) : Enduring (fun _ => True) (·.settings = c) where
  collect _ _ hs := hs
  store _ _ _ _ _ _ hs := hs
  move _ hs := hs

namespace Station

variable {t : StyledTree ε} {c : Settings} {near : List (Station ε)} {l : List ε} {a : Station ε}
  {full style : ComputedStyle} {history : SiblingHistory} {p q : PassState}

/-- An element is styled from the style that is computed for it. -/
theorem style_eq (t : StyledTree ε) (a : Station ε) :
    a.style t = a.own t >>= fun out => (Styler.finishElement t a.parent a.history a.element
      (a.state.styler.collect t a.element).1.matched a.state.styler.settings.sharing out.1).run
        out.2 :=
  Styler.run_styleElement t a.parent a.history a.element a.state.styler a.state.report

/-- Computing a style neither stores nor reports anything. -/
theorem of_own (h : a.own t = .ok (full, q)) :
    q.styler.styles = a.state.styler.styles ∧ q.report = a.state.report := by
  obtain ⟨stamp, rfl⟩ := Styler.stamps_computeStyle _ _ _ _ _ h
  exact ⟨rfl, rfl⟩

/-- What is done with the style that is computed at a station. -/
theorem exists_run_compact (hrecalls : a.state.styler.Recalls t c near l a.history)
    (hfull : a.own t = .ok (full, q)) :
    ∃ style n, (if c.sharing then
        Styler.compact (t.key a.element) (a.signature t) a.parent a.history full
        else pure (full, a.history)).run q =
      .ok ((style, if c.sharing then a.history.remember (t.key a.element) (a.signature t)
        else a.history), ⟨q.styler, { q.report with shared := q.report.shared + n }⟩) ∧
      a.Compacts t near full style n := by
  have hsettings := hrecalls.settings
  cases hsharing : c.sharing with
  | false => exact ⟨full, 0, rfl, .off (by rw [hsettings, hsharing])⟩
  | true =>
    rw [← hsettings] at hsharing
    have hfind : a.history.find? (a.signature t) = _ := hrecalls.find?_eq
    cases hnear : near.find? fun b => b.signature t == a.signature t with
    | none =>
      rw [hnear, Option.map_none] at hfind
      have hnone : ∀ b ∈ near, (b.signature t == a.signature t) = false := by
        simpa using List.find?_eq_none.mp hnear
      refine ⟨_, 0, Styler.run_compact_of_none (by rw [hfind, Option.bind_none]), ?_⟩
      cases hparent : a.parent with
      | none => exact .alone hsharing hnone hparent
      | some parent => exact .parent hsharing hnone hparent
    | some b =>
      rw [hnear, Option.map_some] at hfind
      obtain ⟨hb, before, after, hsplit, hbefore⟩ := List.find?_eq_some_iff_append.mp hnear
      obtain ⟨similar, history, p, hstyle, hstored⟩ := hrecalls.committed b (by simp [hsplit])
      rw [← (of_own hfull).1] at hstored
      exact ⟨_, 1, Styler.run_compact_of_sibling (by rw [hfind, Option.bind_some, hstored]),
        .sibling hsharing hsplit (by simpa using hbefore) hb hstyle⟩

/-- An element that gets a style has had one computed, which shares groups before it is stored. -/
theorem exists_of_style (hrecalls : a.state.styler.Recalls t c near l a.history)
    (hstyle : a.style t = .ok (some (style, history), p)) :
    ∃ full q n, a.own t = .ok (full, q) ∧ a.Compacts t near full style n ∧
      (history = if c.sharing then a.history.remember (t.key a.element) (a.signature t)
        else a.history) ∧
      p.report.shared = q.report.shared + n := by
  have he : true = t.isConnected a.element := (Styler.out_of_styleElement hstyle).1
  rw [style_eq] at hstyle
  obtain ⟨⟨full, q⟩, hfull, hfinish⟩ := exists_of_bind_eq_ok hstyle
  obtain ⟨style', n, hcompact, hcompacts⟩ := exists_run_compact hrecalls hfull
  rw [← hrecalls.settings, signature] at hcompact
  dsimp only at hfinish
  rw [Styler.finishElement, if_pos he.symm, PassM.run_ite_bind hcompact] at hfinish
  obtain ⟨hout, rfl⟩ := Prod.mk.inj (Except.ok.inj hfinish)
  obtain ⟨rfl, rfl⟩ := Prod.mk.inj (Option.some.inj hout)
  refine ⟨full, q, n, hfull, hcompacts, ?_, rfl⟩
  rw [hrecalls.settings]
  rfl

end Station

namespace Styler.Recalls

variable {t : StyledTree ε} {c : Settings} {near : List (Station ε)} {l : List ε}
  {a : Station ε} {out : Option (ComputedStyle × SiblingHistory)} {p : PassState}

/-- Styling another element leaves what is remembered where it is. -/
theorem kept (hrecalls : a.state.styler.Recalls t c near l a.history)
    (hkey : ∀ x ∈ l, t.key x ≠ t.key a.element) (hstyle : a.style t = .ok (out, p)) :
    p.styler.Recalls t c near l a.history := by
  refine hrecalls.frame ((enduring_settings c).keeps_styleElement trivial _ _ _ _ _ _ _
    hrecalls.settings hstyle) fun x hx => ?_
  exact ((records_styleElement _ _ _ _ _ _ hstyle).kept (t.key x) (by simpa using hkey x hx)).1

/-- An element that gets a style comes to the front of those that are remembered. -/
theorem cons {style : ComputedStyle} {history : SiblingHistory}
    (hrecalls : a.state.styler.Recalls t c near l a.history)
    (hkey : ∀ x ∈ l, t.key x ≠ t.key a.element)
    (hstyle : a.style t = .ok (some (style, history), p)) :
    ∃ near' ⊆ a :: near, p.styler.Recalls t c near' (a.element :: l) history := by
  obtain ⟨-, -, -, -, -, hhistory, -⟩ := Station.exists_of_style hrecalls hstyle
  obtain ⟨hconnected, hstored⟩ := out_of_styleElement hstyle
  have hafter := hrecalls.kept hkey hstyle
  cases hsharing : c.sharing with
  | false =>
    rw [hsharing] at hhistory
    obtain rfl : history = a.history := hhistory
    refine ⟨near, List.subset_cons_self a near, { hafter with elements := ?_ }⟩
    rw [hafter.elements, Settings.window_of_off hsharing, Settings.window_of_off hsharing]
  | true =>
    rw [hsharing] at hhistory
    obtain rfl : history = a.history.remember (t.key a.element) (a.signature t) := hhistory
    refine ⟨(a :: near).take c.scanLimit, List.take_subset _ _, hafter.settings, ?_, ?_, ?_, ?_⟩
    · exact SiblingHistory.limit_remember.trans hafter.limit
    · rw [Settings.window_cons hsharing hconnected.symm, List.map_take, List.map_cons,
        hafter.elements]
    · rw [SiblingHistory.entries_remember hafter.size_le, hafter.entries, hafter.limit,
        List.map_take, List.map_cons]
      rfl
    · intro b hb
      rcases List.mem_cons.mp (List.mem_of_mem_take hb) with rfl | hb
      · exact ⟨style, _, p, hstyle, hstored⟩
      · exact hafter.committed b hb

/-- An element that is cut off is not remembered. -/
theorem cut (hrecalls : a.state.styler.Recalls t c near l a.history)
    (hkey : ∀ x ∈ l, t.key x ≠ t.key a.element) (hstyle : a.style t = .ok (none, p)) :
    p.styler.Recalls t c near (a.element :: l) a.history := by
  have hafter := hrecalls.kept hkey hstyle
  have hcut : false = t.isConnected a.element := (out_of_styleElement hstyle).1
  refine { hafter with elements := ?_ }
  rw [hafter.elements, Settings.window_cons_of_cut hcut.symm]

end Styler.Recalls

end StyleEngine
