import StyleEngine.Proofs.Pass.History
import StyleEngine.Proofs.Style.Handle

/-!
# The stock of styles

A pass makes styles out of styles that are around: it computes one from the initial style and that
of a parent, attaches one to another, or shares the groups of one with another. What lasts through
these three lasts through every pass. The stock of styles that have been around only grows.

## Main definitions

* `StockLaw`: a property of the stock that lasts while styles are made.
* `Styler.Stocked`: all styles of a styler are in the stock.

## Main statements

* `StockLaw.restyle`, `StockLaw.exists_stock`: a law lasts through a pass, and through any calls.
* `stockLaw_coherent`: styles stay coherent.
-/

namespace StyleEngine

variable {ε : Type}

/-- A property of the stock of styles and of the next stamp. It lasts while styles are made. -/
structure StockLaw (settings : Settings) (initial : ComputedStyle)
    (Good : Set ComputedStyle → Stamp → Prop) : Prop where
  apply : ∀ {L : Set ComputedStyle} {n : Stamp} {c : StyleContext} {ds : List Declaration}
    {s : ComputedStyle}, Good L n → c.settings = settings → c.initial = initial → initial ∈ L →
    (∀ p ∈ c.parent, p ∈ L) → c.apply n ds = .ok s → Good (insert s L) (n + 1)
  attach : ∀ {L : Set ComputedStyle} {n : Stamp} {s style s' : ComputedStyle}, Good L n → s ∈ L →
    style ∈ L → s.attach style = .ok s' → Good (insert s' L) n
  compactWith : ∀ {L : Set ComputedStyle} {n : Stamp} {s similar : ComputedStyle}, Good L n →
    s ∈ L → similar ∈ L → Good (insert (s.compactWith similar) L) n

/-- The initial style and all styles that are stored are in the stock, which has the property
`Good`. -/
structure Styler.Stocked (settings : Settings) (initial : ComputedStyle)
    (Good : Set ComputedStyle → Stamp → Prop) (L : Set ComputedStyle) (s : Styler) : Prop where
  settings_eq : s.settings = settings
  initial_eq : s.initial = initial
  good : Good L s.stamp
  initial_mem : initial ∈ L
  stored_mem : ∀ {key : ElementKey} {style : ComputedStyle}, s.styles[key]? = some style → style ∈ L

variable {settings : Settings} {initial : ComputedStyle} {Good : Set ComputedStyle → Stamp → Prop}
  {L L' : Set ComputedStyle}

namespace Styler.Stocked

variable {s s' : Styler}

/-- A styler with the same styles is stocked as well. -/
theorem of_eq (h : s.Stocked settings initial Good L) (hsettings : s'.settings = s.settings)
    (hinitial : s'.initial = s.initial) (hstamp : s'.stamp = s.stamp)
    (hstyles : ∀ {key : ElementKey} {style : ComputedStyle}, s'.styles[key]? = some style →
      s.styles[key]? = some style) :
    s'.Stocked settings initial Good L where
  settings_eq := hsettings.trans h.settings_eq
  initial_eq := hinitial.trans h.initial_eq
  good := hstamp ▸ h.good
  initial_mem := h.initial_mem
  stored_mem hstored := h.stored_mem (hstyles hstored)

/-- A style goes into the stock. -/
theorem insert (h : s.Stocked settings initial Good L) {style : ComputedStyle}
    (hgood : Good (insert style L) s.stamp) :
    s.Stocked settings initial Good (Insert.insert style L) where
  settings_eq := h.settings_eq
  initial_eq := h.initial_eq
  good := hgood
  initial_mem := .inr h.initial_mem
  stored_mem hstored := .inr (h.stored_mem hstored)

theorem collect (h : s.Stocked settings initial Good L) (t : StyledTree ε) (e : ε) :
    (s.collect t e).2.Stocked settings initial Good L :=
  h.of_eq rfl rfl rfl id

theorem forget (h : s.Stocked settings initial Good L) (key : ElementKey) :
    (s.forget key).Stocked settings initial Good L := by
  refine h.of_eq rfl rfl rfl fun {key' style} hstored => ?_
  rw [Styler.forget, Std.HashMap.getElem?_erase] at hstored
  split at hstored
  · cases hstored
  · exact hstored

end Styler.Stocked

/-! ## Steps of a pass -/

/-- A step that ends with a stock that has grown, and with the styles `made` in it. -/
def PassM.Makes {α : Type} (settings : Settings) (initial : ComputedStyle)
    (Good : Set ComputedStyle → Stamp → Prop) (L : Set ComputedStyle) (x : PassM α)
    (made : α → Set ComputedStyle) : Prop :=
  ∀ s r a s' r', s.Stocked settings initial Good L → x.run ⟨s, r⟩ = .ok (a, ⟨s', r'⟩) →
    ∃ L', L ⊆ L' ∧ s'.Stocked settings initial Good L' ∧ made a ⊆ L'

namespace PassM

variable {α β : Type} {made : α → Set ComputedStyle} {made' : β → Set ComputedStyle}

theorem makes_pure {a : α} (h : made a ⊆ L) :
    (pure a : PassM α).Makes settings initial Good L made := by
  intro s r a' s' r' hs hrun
  obtain ⟨rfl, ⟨⟩⟩ := run_pure_eq_ok_iff.mp hrun
  exact ⟨L, subset_rfl, hs, h⟩

theorem Makes.bind {x : PassM α} {f : α → PassM β} (hx : x.Makes settings initial Good L made)
    (hf : ∀ a L', L ⊆ L' → made a ⊆ L' → (f a).Makes settings initial Good L' made') :
    (x >>= f).Makes settings initial Good L made' := by
  intro s r b s'' r'' hs hrun
  obtain ⟨a, ⟨s', r'⟩, hrun, hrun'⟩ := exists_of_run_bind hrun
  obtain ⟨L', hL', hs', ha⟩ := hx s r a s' r' hs hrun
  obtain ⟨L'', hL'', hs'', hb⟩ := hf a L' hL' ha s' r' b s'' r'' hs' hrun'
  exact ⟨L'', hL'.trans hL'', hs'', hb⟩

/-- What is read from the styler is as good as the styler. -/
theorem makes_styler_bind {f : Styler → PassM β}
    (hf : ∀ s, s.Stocked settings initial Good L → (f s).Makes settings initial Good L made') :
    (PassM.styler >>= f).Makes settings initial Good L made' := by
  intro s r b s' r' hs hrun
  rw [run_bind_of_ok (run_styler _)] at hrun
  exact hf s hs s r b s' r' hs hrun

theorem makes_modifyStyler {f : Styler → Styler}
    (hf : ∀ s, s.Stocked settings initial Good L → (f s).Stocked settings initial Good L) :
    (modifyStyler f).Makes settings initial Good L fun _ => ∅ := by
  intro s r a s' r' hs hrun
  obtain ⟨-, hstate⟩ := Prod.mk.inj (Except.ok.inj hrun)
  obtain ⟨rfl, -⟩ := PassState.mk.inj hstate
  exact ⟨L, subset_rfl, hf s hs, Set.empty_subset _⟩

/-- Bookkeeping makes no style. -/
theorem makes_bookkeeping {f : Styler → Styler}
    (hf : ∀ s, ∃ dependencies filter,
      f s = { s with dependencies := dependencies, filter := filter }) :
    (modifyStyler f).Makes settings initial Good L fun _ => ∅ := by
  refine makes_modifyStyler fun s hs => ?_
  obtain ⟨dependencies, filter, heq⟩ := hf s
  rw [heq]
  exact hs.of_eq rfl rfl rfl id

theorem makes_modifyReport (f : Report → Report) :
    (modifyReport f).Makes settings initial Good L fun _ => ∅ := by
  intro s r a s' r' hs hrun
  obtain ⟨-, hstate⟩ := Prod.mk.inj (Except.ok.inj hrun)
  obtain ⟨rfl, -⟩ := PassState.mk.inj hstate
  exact ⟨L, subset_rfl, hs, Set.empty_subset _⟩

end PassM

open PassM

namespace StockLaw

variable (h : StockLaw settings initial Good) {style : ComputedStyle}

include h

theorem makes_applyFresh {c : StyleContext} (hsettings : c.settings = settings)
    (hinitial : c.initial = initial) (hparent : ∀ p ∈ c.parent, p ∈ L) (es : List Entry) :
    (Styler.applyFresh c es).Makes settings initial Good L fun style => {style} := by
  intro s r style s' r' hs hrun
  obtain ⟨happly, ⟨⟩⟩ := Styler.run_applyFresh_eq_ok_iff.mp hrun
  exact ⟨insert style L, Set.subset_insert _ _,
    { settings_eq := hs.settings_eq
      initial_eq := hs.initial_eq
      good := h.apply hs.good hsettings hinitial hs.initial_mem hparent happly
      initial_mem := .inr hs.initial_mem
      stored_mem := fun hstored => .inr (hs.stored_mem hstored) }, by simp⟩

theorem makes_attach {pseudo : ComputedStyle} (hstyle : style ∈ L) (hpseudo : pseudo ∈ L) :
    (liftM (style.attach pseudo) : PassM ComputedStyle).Makes settings initial Good L
      fun style => {style} := by
  intro s r attached s' r' hs hrun
  obtain ⟨hattach, ⟨⟩⟩ := run_lift_eq_ok_iff.mp hrun
  exact ⟨insert attached L, Set.subset_insert _ _,
    hs.insert (h.attach hs.good hstyle hpseudo hattach), by simp⟩

theorem makes_attachPseudos {c : StyleContext} (hsettings : c.settings = settings)
    (hinitial : c.initial = initial) (collected : Collected) (ps : List PseudoElement)
    (hstyle : style ∈ L) :
    (Styler.attachPseudos c collected ps style).Makes settings initial Good L
      fun style => {style} := by
  induction ps generalizing style L with
  | nil => exact makes_pure (Set.singleton_subset_iff.mpr hstyle)
  | cons p ps ih =>
    rw [Styler.attachPseudos]
    have hparent : ∀ q ∈ some style, q ∈ L := by
      rintro q ⟨⟩
      exact hstyle
    refine (h.makes_applyFresh
      (c := { c with parent := some style, pseudo := some p, isRoot := false }) hsettings hinitial
      hparent _).bind fun pseudo L' hL' hpseudo => ?_
    have hpseudo : pseudo ∈ L' := Set.singleton_subset_iff.mp hpseudo
    split
    · refine (h.makes_attach (hL' hstyle) hpseudo).bind fun style _ _ hstyle => ?_
      exact ih (Set.singleton_subset_iff.mp hstyle)
    · exact ih (hL' hstyle)

theorem makes_compactWith {similar : ComputedStyle} (hstyle : style ∈ L) (hsimilar : similar ∈ L)
    (history : SiblingHistory) :
    (pure (style.compactWith similar, history) : PassM (ComputedStyle × SiblingHistory)).Makes
      settings initial Good L fun out => {out.1} := by
  intro s r out s' r' hs hrun
  obtain ⟨rfl, ⟨⟩⟩ := run_pure_eq_ok_iff.mp hrun
  exact ⟨insert (style.compactWith similar) L, Set.subset_insert _ _,
    hs.insert (h.compactWith hs.good hstyle hsimilar), by simp⟩

theorem makes_compact (key : ElementKey) (signature : Signature) {parent : Option ComputedStyle}
    (hparent : ∀ p ∈ parent, p ∈ L) (history : SiblingHistory) (hstyle : style ∈ L) :
    (Styler.compact key signature parent history style).Makes settings initial Good L
      fun out => {out.1} := by
  refine makes_styler_bind fun s hs => ?_
  dsimp only
  split
  · next similar hfound =>
    obtain ⟨key', -, hstored⟩ := Option.bind_eq_some_iff.mp hfound
    exact (makes_modifyReport _).bind fun _ L' hL' _ =>
      h.makes_compactWith (hL' hstyle) (hL' (hs.stored_mem hstored)) _
  · exact h.makes_compactWith hstyle (hparent _ rfl) _
  · exact makes_pure (Set.singleton_subset_iff.mpr hstyle)

omit h in
theorem makes_commit (key : ElementKey) (isRoot : Bool) (hstyle : style ∈ L) :
    (Styler.commit key isRoot style).Makes settings initial Good L fun _ => ∅ := by
  refine makes_styler_bind fun s hs => (makes_modifyReport _).bind fun _ L' hL' _ =>
    makes_modifyStyler fun s hs => ?_
  refine ⟨hs.settings_eq, hs.initial_eq, hs.good, hs.initial_mem, fun {key' style'} hstored => ?_⟩
  rw [Std.HashMap.getElem?_insert] at hstored
  split at hstored
  · obtain rfl := Option.some.inj hstored
    exact hL' hstyle
  · exact hs.stored_mem hstored

theorem makes_styleElement (t : StyledTree ε) {parent : Option ComputedStyle}
    (hparent : ∀ p ∈ parent, p ∈ L) (history : SiblingHistory) (e : ε) :
    (Styler.styleElement t parent history e).Makes settings initial Good L
      fun out => {style | ∃ history, out = some (style, history)} := by
  refine makes_styler_bind fun s hs => ?_
  have hcollected := hs.collect t e
  have hsettings : (s.collect t e).2.settings = settings := hcollected.settings_eq
  have hinitial : (s.collect t e).2.initial = initial := hcollected.initial_eq
  refine (makes_modifyStyler fun _ _ => hcollected).bind fun _ L₁ hL₁ _ => ?_
  have hparent {L' : Set ComputedStyle} (hL' : L ⊆ L') : ∀ p ∈ parent, p ∈ L' :=
    fun p hp => hL' (hparent p hp)
  refine (h.makes_applyFresh hsettings hinitial (hparent hL₁) _).bind fun bare L₂ hL₂ hbare => ?_
  refine (h.makes_attachPseudos hsettings hinitial _ _
    (Set.singleton_subset_iff.mp hbare)).bind fun full L₃ hL₃ hfull => ?_
  have hfull : full ∈ L₃ := Set.singleton_subset_iff.mp hfull
  have hcommit {L' : Set ComputedStyle} {style : ComputedStyle} (hstyle : style ∈ L')
      (history : SiblingHistory) :
      (do
        Styler.commit (t.key e) (t.isRoot e) style
        pure (some (style, history)) : PassM _).Makes settings initial Good L'
          fun out => {style | ∃ history, out = some (style, history)} := by
    refine (makes_commit _ _ hstyle).bind fun _ L'' hL'' _ => makes_pure ?_
    rintro style' ⟨history', heq⟩
    obtain ⟨rfl, -⟩ := Prod.mk.inj (Option.some.inj heq)
    exact hL'' hstyle
  split
  · split
    · refine (h.makes_compact _ _ (hparent (hL₁.trans (hL₂.trans hL₃))) _ hfull).bind
        fun out L₄ _ hout => ?_
      exact hcommit (Set.singleton_subset_iff.mp hout) _
    · exact hcommit hfull history
  · refine (makes_modifyStyler fun s hs => hs.forget _).bind fun _ _ _ _ =>
      (makes_modifyReport _).bind fun _ _ _ _ => makes_pure ?_
    rintro style ⟨history', heq⟩
    cases heq

end StockLaw

mutual
theorem StockLaw.makes_styleBranch (h : StockLaw settings initial Good) (t : StyledTree ε)
    {parent : Option ComputedStyle} {L : Set ComputedStyle} (hparent : ∀ p ∈ parent, p ∈ L)
    (history : SiblingHistory) (b : Branch ε) :
    (Styler.styleBranch t parent history b).Makes settings initial Good L fun _ => ∅ := by
  match b with
  | .node e children =>
    rw [Styler.styleBranch]
    refine (h.makes_styleElement t hparent history e).bind fun styled L₁ _ hstyled => ?_
    match styled with
    | none => exact makes_pure (Set.empty_subset _)
    | some (style, history) =>
      have hstyle : style ∈ L₁ := hstyled ⟨history, rfl⟩
      refine (makes_bookkeeping fun s => ⟨_, _, rfl⟩).bind fun _ L₂ hL₂ _ => ?_
      refine makes_styler_bind fun s _ => ?_
      refine (h.makes_styleChildren t (hL₂ hstyle) (.empty s.settings.scanLimit) children).bind
        fun _ _ _ _ => ?_
      exact (makes_bookkeeping fun s => ⟨_, _, rfl⟩).bind fun _ _ _ _ =>
        makes_pure (Set.empty_subset _)
theorem StockLaw.makes_styleChildren (h : StockLaw settings initial Good) (t : StyledTree ε)
    {parent : ComputedStyle} {L : Set ComputedStyle} (hparent : parent ∈ L)
    (history : SiblingHistory) (bs : List (Branch ε)) :
    (Styler.styleChildren t parent history bs).Makes settings initial Good L fun _ => ∅ := by
  match bs with
  | [] =>
    rw [Styler.styleChildren]
    exact makes_pure (Set.empty_subset _)
  | b :: bs =>
    rw [Styler.styleChildren]
    refine (makes_bookkeeping fun s => ⟨_, _, rfl⟩).bind fun _ L₁ hL₁ _ => ?_
    have hsome : ∀ p ∈ some parent, p ∈ L₁ := by
      rintro p ⟨⟩
      exact hL₁ hparent
    refine (h.makes_styleBranch t hsome history b).bind fun history L₂ hL₂ _ => ?_
    exact h.makes_styleChildren t (hL₂ (hL₁ hparent)) history bs
end

/-! ## Passes -/

namespace StockLaw

open Styler

variable {s s' : Styler} {r : Report} {t : StyledTree ε} {e : ε}

/-- What the parent's style is looked up in is the stock. -/
theorem mem_of_parentStyle (hs : s.Stocked settings initial Good L)
    {parent : Option ComputedStyle} (h : s.parentStyle t e = .ok parent) :
    ∀ p ∈ parent, p ∈ L := by
  rintro p ⟨⟩
  unfold Styler.parentStyle at h
  split at h
  · cases h
  · split at h
    · next hstored =>
      obtain rfl := Option.some.inj (Except.ok.inj h)
      exact hs.stored_mem hstored
    · cases h

/-- A pass leaves a law true, of a stock that has grown. -/
theorem restyle (h : StockLaw settings initial Good) (hs : s.Stocked settings initial Good L)
    (hrun : s.restyle t e = .ok (s', r)) :
    ∃ L', L ⊆ L' ∧ s'.Stocked settings initial Good L' := by
  obtain ⟨parent, history, hparent, hpass⟩ := exists_run_of_restyle hrun
  have hbegin : (s.beginPass t e).Stocked settings initial Good L := hs.of_eq rfl rfl rfl id
  obtain ⟨L', hL', hs', -⟩ := h.makes_styleBranch t (mem_of_parentStyle hs hparent) _ (t.branch e)
    _ _ _ _ _ hbegin hpass
  exact ⟨L', hL', hs'⟩

/-- A law that holds of the initial style holds of all styles that a styler can come to have. -/
theorem exists_stock {metrics : FontMetrics}
    (h : StockLaw settings (.initial 0 settings.defaultFontSize) Good)
    (hstart : Good {.initial 0 settings.defaultFontSize} 1) {set : SheetSet} {m : Medium}
    (hs : Reachable settings metrics set m s) :
    ∃ L, s.Stocked settings (.initial 0 settings.defaultFontSize) Good L := by
  induction hs with
  | create set m =>
    refine ⟨_, rfl, rfl, hstart, rfl, fun {key style} hstored => ?_⟩
    simp [Styler.create] at hstored
  | restyle t e _ hrun ih =>
    obtain ⟨L, hL⟩ := ih
    obtain ⟨L', -, hL'⟩ := h.restyle hL hrun
    exact ⟨L', hL'⟩
  | replaceSheets set' m' _ ih =>
    obtain ⟨L, hL⟩ := ih
    exact ⟨L, hL.of_eq rfl rfl rfl id⟩
  | forget key _ ih =>
    obtain ⟨L, hL⟩ := ih
    exact ⟨L, hL.forget key⟩

end StockLaw

/-! ## Coherent stocks -/

/-- The parts of the styles of a stock. -/
def partsIn (L : Set ComputedStyle) (own : OwnStyle) : Prop :=
  ∃ s ∈ L, s.Part own

/-- Styles are coherent with those that they are made of. -/
theorem stockLaw_coherent (settings : Settings) (initial : ComputedStyle) :
    StockLaw settings initial fun L => Coherent (partsIn L) where
  apply {L n c ds s} hgood _ hinitial hmem hparent happly := by
    have hown : s.own.Made (partsIn L) n :=
      StyleContext.made_apply (hinitial ▸ ⟨initial, hmem, .own initial⟩)
        (fun p hp => ⟨p, hparent p hp, .own p⟩) happly
    refine (hgood.insert_made hown).mono ?_
    rintro own ⟨style, rfl | hstyle, hpart⟩
    · have hpseudos := StyleContext.pseudos_apply happly
      refine (ComputedStyle.part_of_pseudos_eq hpseudos hpart).imp_right ?_
      exact fun hpart => ⟨c.initial, hinitial ▸ hmem, hpart⟩
    · exact .inr ⟨style, hstyle, hpart⟩
  attach hgood hs hstyle hattach := by
    refine hgood.mono ?_
    rintro own ⟨style', rfl | hstyle', hpart⟩
    · rcases ComputedStyle.part_of_attach hattach hpart with hpart | hpart
      · exact ⟨_, hs, hpart⟩
      · exact ⟨_, hstyle, hpart⟩
    · exact ⟨style', hstyle', hpart⟩
  compactWith {L n s similar} hgood hs hsimilar := by
    have hown : (s.compactWith similar).own.Composed (partsIn L) :=
      ComputedStyle.composed_compactWith ⟨s, hs, .own s⟩ ⟨similar, hsimilar, .own similar⟩
    refine (hgood.insert_composed hown).mono ?_
    rintro own ⟨style, rfl | hstyle, hpart⟩
    · have hpseudos : (s.compactWith similar).pseudos = s.pseudos := rfl
      refine (ComputedStyle.part_of_pseudos_eq hpseudos hpart).imp_right fun hpart => ?_
      exact ⟨s, hs, hpart⟩
    · exact .inr ⟨style, hstyle, hpart⟩

theorem coherent_initial (mediumPx : Float32) :
    Coherent (partsIn {.initial 0 mediumPx}) 1 := by
  have hpart {own : OwnStyle} (h : partsIn {.initial 0 mediumPx} own) :
      own = .initial 0 mediumPx := by
    obtain ⟨s, rfl, hpart⟩ := h
    rcases ComputedStyle.part_iff.mp hpart with rfl | ⟨entry, hentry, -⟩
    · rfl
    · cases hentry
  constructor
  · intro a b ha hb
    rw [hpart ha, hpart hb]
    exact OwnStyle.sharesEqual_iff.mpr fun _ _ => rfl
  · intro a ha g
    rw [hpart ha]
    cases g <;> exact Nat.zero_lt_one

end StyleEngine
