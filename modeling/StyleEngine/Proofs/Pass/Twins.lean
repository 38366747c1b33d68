import StyleEngine.Proofs.Pass.Along
import StyleEngine.Proofs.Pass.Stock
import StyleEngine.Proofs.Style.Shortcut

/-!
# Stylers that differ in sharing

Two stylers under settings that differ in sharing go through the same calls. As long as no style has
a number that is none, they store styles of the same plain forms and the same differences, and all
that they report but the number of elements that share is the same.

## Main definitions

* `Styler.Twins`: stylers that have stored the same, up to the signs of zeros.
* `Styler.Alongside`: stylers after the same calls.

## Main statements

* `Styler.Twins.restyle`: twins stay twins in a pass, and report the same.
* `Styler.Alongside.twins`: stylers after the same calls are twins.
-/

namespace StyleEngine

open NaivePass (Ground)

variable {ε : Type}

/-! ## Differences -/

/-- The difference at an element hangs on the plain forms of the styles before and after, if no
number in them is none and groups that they share hold equal contents. -/
theorem differenceAt_congr {before after before' after' : Std.HashMap ElementKey ComputedStyle}
    {key : ElementKey}
    (hbefore : (before[key]?).map ComputedStyle.plainForm =
      (before'[key]?).map ComputedStyle.plainForm)
    (hafter : (after[key]?).map ComputedStyle.plainForm =
      (after'[key]?).map ComputedStyle.plainForm)
    (hnumeric : ∀ old ∈ before[key]?, old.Numeric) (hnumeric' : ∀ new ∈ after[key]?, new.Numeric)
    (hshared : ∀ old ∈ before[key]?, ∀ new ∈ after[key]?, ∀ a b, old.Part a → new.Part b →
      a.SharesEqual b)
    (hshared' : ∀ old ∈ before'[key]?, ∀ new ∈ after'[key]?, ∀ a b, old.Part a → new.Part b →
      a.SharesEqual b) :
    differenceAt before after key = differenceAt before' after' key := by
  unfold differenceAt
  rcases eq_none_or_of_map_eq hbefore with ⟨hold, hold'⟩ | ⟨old, old', hold, hold', hplain⟩
  · rw [hold, hold']
  rcases eq_none_or_of_map_eq hafter with ⟨hnew, hnew'⟩ | ⟨new, new', hnew, hnew', hplain'⟩
  · rw [hold, hold', hnew, hnew']
  rw [hold, hold', hnew, hnew']
  exact (hnumeric old hold).difference_congr (hnumeric' new hnew) hplain hplain'
    (hshared old hold new hnew) (hshared' old' hold' new' hnew')

namespace Styler

/-- No number in a style that is stored is none. -/
def Numeric (s : Styler) : Prop :=
  ∀ (key : ElementKey), ∀ style ∈ s.styles[key]?, style.Numeric

theorem Numeric.forget {s : Styler} (h : s.Numeric) (key : ElementKey) :
    (s.forget key).Numeric := by
  intro key' style hstyle
  rw [Styler.forget, Std.HashMap.getElem?_erase] at hstyle
  split at hstyle
  · cases hstyle
  · exact h key' style hstyle

/-- Groups that a style from before a pass shares with one from after it hold equal contents. -/
theorem Reachable.sharesEqual_restyle {settings : Settings} {metrics : FontMetrics}
    {set : SheetSet} {m : Medium} {s s' : Styler} {r : Report} {t : StyledTree ε} {e : ε}
    (hs : Reachable settings metrics set m s) (hrun : s.restyle t e = .ok (s', r))
    (key : ElementKey) :
    ∀ old ∈ s.styles[key]?, ∀ new ∈ s'.styles[key]?, ∀ a b, old.Part a → new.Part b →
      a.SharesEqual b := by
  have hlaw := stockLaw_coherent settings (.initial 0 settings.defaultFontSize)
  obtain ⟨L, hL⟩ := hlaw.exists_stock (coherent_initial _) hs
  obtain ⟨L', hsubset, hL'⟩ := hlaw.restyle hL hrun
  intro old hold new hnew a b ha hb
  exact hL'.good.sharesEqual ⟨old, hsubset (hL.stored_mem hold), ha⟩ ⟨new, hL'.stored_mem hnew, hb⟩

/-- Stylers that have stored styles of the same plain forms and the same differences. -/
structure Twins (s s₂ : Styler) : Prop where
  styles : ∀ key : ElementKey, (s.styles[key]?).map ComputedStyle.plainForm =
    (s₂.styles[key]?).map ComputedStyle.plainForm
  rootFontSize : plain s.rootFontSize = plain s₂.rootFontSize
  differences : ∀ key : ElementKey, s.differences[key]? = s₂.differences[key]?

namespace Twins

variable {s s₂ : Styler}

theorem parentStyle (h : s.Twins s₂) (t : StyledTree ε) (e : ε) :
    (s.parentStyle t e).map (Option.map ComputedStyle.plainForm) =
      (s₂.parentStyle t e).map (Option.map ComputedStyle.plainForm) := by
  unfold Styler.parentStyle
  cases t.parent? e with
  | none => rfl
  | some p =>
    dsimp only
    rcases eq_none_or_of_map_eq (h.styles (t.key p)) with
      ⟨hp, hp'⟩ | ⟨style, style', hp, hp', hplain⟩
    · rw [hp, hp']
    · rw [hp, hp']
      exact congrArg (Except.ok ∘ some) hplain

theorem forget (h : s.Twins s₂) (key : ElementKey) : (s.forget key).Twins (s₂.forget key) where
  styles key' := by
    simp only [Styler.forget, Std.HashMap.getElem?_erase]
    split
    · rfl
    · exact h.styles key'
  rootFontSize := h.rootFontSize
  differences key' := by
    simp only [Styler.forget, Std.HashMap.getElem?_erase]
    split
    · rfl
    · exact h.differences key'

section Restyle

variable {settings settings' : Settings} {metrics : FontMetrics} {set : SheetSet} {m : Medium}
  {s' s₂' : Styler} {r r₂ : Report} {t : StyledTree ε} {e : ε}

/-- A pass that comes to an end for one of two twins does so for the other, and stores styles of the
same plain forms for the elements that it meets. -/
theorem exists_restyle (h : s.Twins s₂) (hs : Reachable settings metrics set m s)
    (hs₂ : Reachable settings' metrics set m s₂) (hfonts : settings.SameFonts settings')
    (hfair : metrics.Fair) (ht : t.Lawful) (hkeys : t.KeysDistinct)
    (hrun : s.restyle t e = .ok (s', r)) :
    ∃ s₂' r₂, s₂.restyle t e = .ok (s₂', r₂) ∧ ∀ x ∈ t.met (t.branch e),
      ∀ style ∈ s'.styles[t.key x]?, ∀ style₂ ∈ s₂'.styles[t.key x]?,
        Ground.plainForm ⟨some style, s'.rootFontSize⟩ =
          Ground.plainForm ⟨some style₂, s₂'.rootFontSize⟩ := by
  let i : PassInput ε := ⟨settings, metrics, .build set m, s.digest, t⟩
  let i₂ : PassInput ε := ⟨settings', metrics, .build set m, s₂.digest, t⟩
  have hconnected := isConnected_of_restyle hrun
  obtain ⟨parent, hparent, hleft⟩ :=
    PassInput.exists_descended (i := i) ht hkeys hfair hs.resting hrun
  have hparents := h.parentStyle t e
  rw [hparent] at hparents
  obtain ⟨parent₂, hparent₂, hplain⟩ := exists_of_map_eq_ok hparents.symm
  have halike (x : ε) : i.naive.AlikeAt i₂.naive x x := ⟨hfonts, rfl, hfair, rfl, fun _ => rfl⟩
  have htree : i.naive.tree = i₂.naive.tree := rfl
  have hstart : Ground.plainForm ⟨parent, s.rootFontSize⟩ =
      Ground.plainForm ⟨parent₂, s₂.rootFontSize⟩ :=
    Ground.plainForm_eq_iff.mpr ⟨hplain.symm, h.rootFontSize⟩
  have hground (x : ε) := NaivePass.plainForm_groundAt htree halike hstart e x
  rcases PassInput.descended_restyle (i := i₂) ht hkeys hfair hs₂.resting hconnected hparent₂ with
    ⟨s₂', r₂, hrun₂, hleft₂⟩ | ⟨error, x, hx, -, herror⟩
  · refine ⟨s₂', r₂, hrun₂, fun x hx style hstyle style₂ hstyle₂ => ?_⟩
    obtain ⟨ground, hok, hsame⟩ := hleft.styled x hx
    obtain ⟨ground₂, hok₂, hsame₂⟩ := hleft₂.styled x hx
    have hx := hground x
    rw [hok, hok₂] at hx
    exact (hsame style hstyle).trans ((Except.ok.inj hx).trans (hsame₂ style₂ hstyle₂).symm)
  · obtain ⟨ground, hok, -⟩ := hleft.styled x hx
    have hx := hground x
    rw [hok, herror] at hx
    cases hx

/-- Twins stay twins in a pass, and report the same but for the number of elements that share. -/
theorem restyle (h : s.Twins s₂) (hs : Reachable settings metrics set m s)
    (hs₂ : Reachable settings' metrics set m s₂) (hfonts : settings.SameFonts settings')
    (hfair : metrics.Fair) (ht : t.Lawful) (hkeys : t.KeysDistinct)
    (hrun : s.restyle t e = .ok (s', r)) (hrun₂ : s₂.restyle t e = .ok (s₂', r₂))
    (hnumeric : s.Numeric) (hnumeric' : s'.Numeric) :
    s'.Twins s₂' ∧ r.withoutSharing = r₂.withoutSharing := by
  obtain ⟨s₃, r₃, hrun₃, hmet⟩ := h.exists_restyle hs hs₂ hfonts hfair ht hkeys hrun
  obtain ⟨rfl, rfl⟩ := Prod.mk.inj (Except.ok.inj (hrun₂.symm.trans hrun₃))
  have hdistinct := ht.nodup_keys_met hkeys e
  have hrecorded := recorded_restyle hdistinct hrun
  have hrecorded₂ := recorded_restyle hdistinct hrun₂
  have hstored : ∀ x ∈ t.met (t.branch e), t.isConnected x = true →
      ∃ style style₂, s'.styles[t.key x]? = some style ∧ s₂'.styles[t.key x]? = some style₂ := by
    intro x hx hconnected
    obtain ⟨style, hstyle⟩ := Option.isSome_iff_exists.mp (hrecorded.committed x hx hconnected).1
    obtain ⟨style₂, hstyle₂⟩ :=
      Option.isSome_iff_exists.mp (hrecorded₂.committed x hx hconnected).1
    exact ⟨style, style₂, hstyle, hstyle₂⟩
  have hstyles (key : ElementKey) : (s'.styles[key]?).map ComputedStyle.plainForm =
      (s₂'.styles[key]?).map ComputedStyle.plainForm := by
    by_cases hkey : key ∈ (t.met (t.branch e)).map t.key
    · obtain ⟨x, hx, rfl⟩ := List.mem_map.mp hkey
      by_cases hconnected : t.isConnected x = true
      · obtain ⟨style, style₂, hstyle, hstyle₂⟩ := hstored x hx hconnected
        rw [hstyle, hstyle₂]
        exact (Ground.plainForm_eq_iff.mp (hmet x hx style hstyle style₂ hstyle₂)).1
      · have hcut : t.isConnected x = false := by simpa using hconnected
        rw [(hrecorded.forgotten x hx hcut).1, (hrecorded₂.forgotten x hx hcut).1]
    · rw [(hrecorded.kept key hkey).1, (hrecorded₂.kept key hkey).1]
      exact h.styles key
  have hdifference (key : ElementKey) :
      differenceAt s.styles s'.styles key = differenceAt s₂.styles s₂'.styles key :=
    differenceAt_congr (h.styles key) (hstyles key) (hnumeric key) (hnumeric' key)
      (hs.sharesEqual_restyle hrun key) (hs₂.sharesEqual_restyle hrun₂ key)
  refine ⟨⟨hstyles, ?_, fun key => ?_⟩, ?_⟩
  · have he : e ∈ t.met (t.branch e) := List.mem_of_head? (StyledTree.head?_met ht e)
    obtain ⟨style, style₂, hstyle, hstyle₂⟩ := hstored e he (isConnected_of_restyle hrun)
    exact (Ground.plainForm_eq_iff.mp (hmet e he style hstyle style₂ hstyle₂)).2
  · by_cases hkey : key ∈ (t.met (t.branch e)).map t.key
    · obtain ⟨x, hx, rfl⟩ := List.mem_map.mp hkey
      by_cases hconnected : t.isConnected x = true
      · rw [(hrecorded.committed x hx hconnected).2, (hrecorded₂.committed x hx hconnected).2]
        exact congrArg some (hdifference _)
      · have hcut : t.isConnected x = false := by simpa using hconnected
        rw [(hrecorded.forgotten x hx hcut).2, (hrecorded₂.forgotten x hx hcut).2]
    · rw [(hrecorded.kept key hkey).2, (hrecorded₂.kept key hkey).2]
      exact h.differences key
  · have hreport := hrecorded.report
    have hreport₂ := hrecorded₂.report
    dsimp only at hreport hreport₂
    rw [hreport, hreport₂]
    exact Report.foldl_meet_congr (fun x _ => hdifference (t.key x)) _

end Restyle

end Twins

/-! ## The same calls -/

/-- Stylers after the same passes, changes of the sheets and removals, each with digests of its own.
The passes have come to an end, over documents with keys that tell elements apart, and the first
styler has stored no style with a number that is none. -/
inductive Alongside (settings settings' : Settings) (metrics : FontMetrics) :
    SheetSet → Medium → Styler → Styler → Prop
  | create (set : SheetSet) (m : Medium) (digest digest' : Feature → Digest) :
    Alongside settings settings' metrics set m (.create settings metrics set m digest)
      (.create settings' metrics set m digest')
  | restyle {set : SheetSet} {m : Medium} {s s₂ s' s₂' : Styler} {r r₂ : Report} {ε : Type}
    (t : StyledTree ε) (e : ε) : Alongside settings settings' metrics set m s s₂ → t.Lawful →
    t.KeysDistinct → s.restyle t e = .ok (s', r) → s₂.restyle t e = .ok (s₂', r₂) → s'.Numeric →
    Alongside settings settings' metrics set m s' s₂'
  | replaceSheets {set : SheetSet} {m : Medium} {s s₂ : Styler} (set' : SheetSet) (m' : Medium) :
    Alongside settings settings' metrics set m s s₂ →
    Alongside settings settings' metrics set' m' (s.replaceSheets set' m')
      (s₂.replaceSheets set' m')
  | forget {set : SheetSet} {m : Medium} {s s₂ : Styler} (key : ElementKey) :
    Alongside settings settings' metrics set m s s₂ →
    Alongside settings settings' metrics set m (s.forget key) (s₂.forget key)

namespace Alongside

variable {settings settings' : Settings} {metrics : FontMetrics} {set : SheetSet} {m : Medium}
  {s s₂ : Styler}

theorem reachable (h : Alongside settings settings' metrics set m s s₂) :
    Reachable settings metrics set m s ∧ Reachable settings' metrics set m s₂ := by
  induction h with
  | create set m digest digest' => exact ⟨.create set m digest, .create set m digest'⟩
  | restyle t e _ _ _ hrun hrun₂ _ ih => exact ⟨.restyle t e ih.1 hrun, .restyle t e ih.2 hrun₂⟩
  | replaceSheets set' m' _ ih => exact ⟨.replaceSheets set' m' ih.1, .replaceSheets set' m' ih.2⟩
  | forget key _ ih => exact ⟨.forget key ih.1, .forget key ih.2⟩

theorem numeric (h : Alongside settings settings' metrics set m s s₂) : s.Numeric := by
  induction h with
  | create set m digest digest' =>
    intro key style hstyle
    simp [Styler.create] at hstyle
  | restyle _ _ _ _ _ _ _ hnumeric => exact hnumeric
  | replaceSheets _ _ _ ih => exact ih
  | forget key _ ih => exact ih.forget key

/-- Stylers after the same calls are twins. -/
theorem twins (h : Alongside settings settings' metrics set m s s₂)
    (hfonts : settings.SameFonts settings') (hfair : metrics.Fair) : s.Twins s₂ := by
  induction h with
  | create set m digest digest' =>
    exact ⟨fun _ => rfl, congrArg plain hfonts.default, fun _ => rfl⟩
  | restyle t e halong ht hkeys hrun hrun₂ hnumeric ih =>
    obtain ⟨hs, hs₂⟩ := halong.reachable
    exact (ih.restyle hs hs₂ hfonts hfair ht hkeys hrun hrun₂ halong.numeric hnumeric).1
  | replaceSheets _ _ _ ih => exact ⟨ih.styles, ih.rootFontSize, ih.differences⟩
  | forget key _ ih => exact ih.forget key

end Alongside

end Styler

end StyleEngine
