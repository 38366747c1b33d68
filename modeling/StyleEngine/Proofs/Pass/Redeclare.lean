import StyleEngine.Proofs.Pass.Follow
import StyleEngine.Proofs.Pass.Report
import StyleEngine.Proofs.Style.Difference

/-!
# Styling a branch again

Declarations that stand at an element itself bear on the styles of its branch only. After such
declarations of elements of a branch are replaced, a pass over the branch is therefore as good as
one over the whole document. If they are the same as before, the pass finds no difference.

## Main definitions

* `StyledTree.withDeclarations`: a tree with other declarations at its elements.

## Main statements

* `PassInput.UpToDate.exists_restyle_replaced`: a pass over the branch of an element settles the
  document.
* `PassInput.UpToDate.exists_restyle_unchanged`: a pass over what has not changed.
* `Styler.Reachable.restyle_branch_agrees`: both for a styler that has styled the document once.
-/

namespace StyleEngine

variable {ε : Type}

namespace StyledTree

/-- The tree with other declarations that stand at its elements. -/
def withDeclarations (t : StyledTree ε) (inline? hints? : ε → Option DeclarationBlock) :
    StyledTree ε :=
  { t with inline? := inline?, hints? := hints? }

theorem Rooted.withDeclarations {t : StyledTree ε} {root : ε} (ht : t.Rooted root)
    (inline? hints? : ε → Option DeclarationBlock) :
    (t.withDeclarations inline? hints?).Rooted root where
  lawful :=
    { toLawful := ht.lawful.toLawful
      element_branch := ht.element_branch
      branch_child := ht.branch_child
      siblings_child := ht.siblings_child }
  ancestors_root := ht.ancestors_root
  preceding_root := ht.preceding_root
  key_injective := ht.key_injective
  connected := ht.connected

end StyledTree

namespace PassInput

variable {i : PassInput ε} {root e : ε} {s : Styler} {inline? hints? : ε → Option DeclarationBlock}

/-- An element stays settled if the declarations at it and at its ancestors stay. -/
theorem Settled.withDeclarations (h : i.Settled s e)
    (hsame : ∀ x ∈ e :: i.tree.ancestors e, inline? x = i.tree.inline? x ∧
      hints? x = i.tree.hints? x) :
    (i.withTree (i.tree.withDeclarations inline? hints?)).Settled s e := by
  obtain ⟨⟨style, hstored, style', rootFontSize, hnaive, hplain⟩, hnoted⟩ := h
  let n : NaivePass ε := (i.withTree (i.tree.withDeclarations inline? hints?)).naive
  have halong : n.styleAlong e (n.tree.ancestors e) =
      i.naive.styleAlong e (i.tree.ancestors e) := by
    have hsettings : n.settings = i.naive.settings := rfl
    have hmetrics : n.metrics = i.naive.metrics := rfl
    refine NaivePass.styleAlong_congr hsettings hmetrics fun x hx => ⟨rfl, ?_⟩
    obtain ⟨hinline, hhints⟩ := hsame x hx
    have hgather : i.index.gather (i.tree.withDeclarations inline? hints?) x =
        i.index.gather i.tree x := by
      simp only [RuleIndex.gather, StyledTree.withDeclarations, hinline, hhints]
    exact funext fun target => congrArg (·.entriesOf target) hgather
  exact ⟨⟨style, hstored, style', rootFontSize, halong.trans hnaive, hplain⟩, hnoted⟩

section UpToDate

variable (h : i.UpToDate root s) (ht : i.tree.Rooted root) (hfair : i.metrics.Fair)
  (he : e ∈ (i.tree.branch root).elements)

include h ht hfair he

/-- After the declarations at elements of a branch are replaced, a pass over the branch leaves every
element settled. -/
theorem UpToDate.exists_restyle_replaced
    (hfits : ∀ x ∈ (i.tree.branch root).elements,
      (i.withTree (i.tree.withDeclarations inline? hints?)).naive.Fits x)
    (hsame : ∀ x ∈ (i.tree.branch root).elements, x ∉ (i.tree.branch e).elements →
      inline? x = i.tree.inline? x ∧ hints? x = i.tree.hints? x) :
    ∃ s' r, s.restyle (i.tree.withDeclarations inline? hints?) e = .ok (s', r) ∧
      (i.withTree (i.tree.withDeclarations inline? hints?)).UpToDate root s' := by
  have houtside {x : ε} (hx : x ∈ (i.tree.branch root).elements)
      (hout : x ∉ (i.tree.branch e).elements) :
      (i.withTree (i.tree.withDeclarations inline? hints?)).Settled s x := by
    refine (h.settled x hx).withDeclarations fun a ha => ?_
    -- What is above an element outside the branch is outside the branch, too.
    obtain ⟨hmem, hxa⟩ := ht.mem_of_ancestor hx ha
    exact hsame a hmem fun hin => hout (ht.mem_trans hin hxa)
  have hparent {p : ε} (hp : i.tree.parent? e = some p) : p ∈ (i.tree.branch root).elements :=
    ht.mem_of_reaches he (ElementTree.reaches_of_parent? hp)
  obtain ⟨s', r, hrun, hsettled⟩ := exists_restyle_branch
    (i := i.withTree (i.tree.withDeclarations inline? hints?)) (ht.withDeclarations inline? hints?)
    hfair hfits h.resting he (fun hx => hx) hparent houtside
  exact ⟨s', r, hrun, h.resting.restyle hrun, fun x hx => hsettled x (.inl hx)⟩

/-- A pass over a branch in which nothing has changed finds no difference, and stores styles that
are equal to those before, if no number in them is none. -/
theorem UpToDate.exists_restyle_unchanged
    (hfits : ∀ x ∈ (i.tree.branch root).elements, i.naive.Fits x)
    (hnumeric : ∀ x ∈ (i.tree.branch e).elements, ∀ style,
      s.styles[i.tree.key x]? = some style → style.Numeric) :
    ∃ s' r, s.restyle i.tree e = .ok (s', r) ∧
      r = ⟨(i.tree.branch e).elements.length, r.shared, [], .equal, []⟩ ∧
      (∀ key, (∀ x ∈ (i.tree.branch e).elements, i.tree.key x ≠ key) →
        s'.styles[key]? = s.styles[key]? ∧ s'.differences[key]? = s.differences[key]?) ∧
      ∀ x ∈ (i.tree.branch e).elements, s'.differences[i.tree.key x]? = some .equal ∧
        ∃ style style', s.styles[i.tree.key x]? = some style ∧
          s'.styles[i.tree.key x]? = some style' ∧ style.plainForm = style'.plainForm ∧
          (style == style') = true := by
  obtain ⟨s', r, hrun, hdone⟩ : ∃ s' r, s.restyle i.tree e = .ok (s', r) ∧ i.UpToDate root s' :=
    h.exists_restyle_replaced ht hfair he hfits fun _ _ _ => ⟨rfl, rfl⟩
  have hbelow {x : ε} (hx : x ∈ (i.tree.branch e).elements) : x ∈ (i.tree.branch root).elements :=
    ht.mem_trans he hx
  have hconnected : ∀ x ∈ (i.tree.branch e).elements, i.tree.isConnected x = true :=
    fun x hx => ht.connected (hbelow hx)
  have hmet := StyledTree.met_eq_elements (i.tree.branch e) hconnected
  have hkeys : ((i.tree.branch e).elements.map i.tree.key).Nodup :=
    (ht.nodup_elements e).map_on fun x hx y hy =>
      ht.key_injective (hbelow hx) (hbelow hy)
  have hrecorded : i.tree.Recorded (i.tree.branch e).elements ⟨s, .empty⟩ ⟨s', r⟩ :=
    hmet ▸ Styler.recorded_restyle (hmet ▸ hkeys) hrun
  have hstyles {x : ε} (hx : x ∈ (i.tree.branch e).elements) :=
    (h.settled x (hbelow hx)).exists_styles (hdone.settled x (hbelow hx))
  have hequal : ∀ x ∈ (i.tree.branch e).elements,
      differenceAt s.styles s'.styles (i.tree.key x) = .equal := by
    intro x hx
    obtain ⟨style, style', hstored, hstored', hplain, -⟩ := hstyles hx
    rw [differenceAt, hstored, hstored']
    exact (hnumeric x hx style hstored).difference_of_plainForm_eq hplain
  refine ⟨s', r, hrun, hrecorded.report_unchanged rfl hconnected hequal, fun key hkey => ?_,
    fun x hx => ⟨?_, ?_⟩⟩
  · refine hrecorded.kept key fun hmem => ?_
    obtain ⟨x, hx, heq⟩ := List.mem_map.mp hmem
    exact hkey x hx heq
  · rw [(hrecorded.committed x hx (hconnected x hx)).2, hequal x hx]
  · obtain ⟨style, style', hstored, hstored', hplain, hbeq⟩ := hstyles hx
    exact ⟨style, style', hstored, hstored', hplain, hbeq (hnumeric x hx style hstored)⟩

end UpToDate

end PassInput

/-- A pass over the branch of an element is as good as one over the whole document. After a pass
over the root, and other declarations at elements of the branch, it comes to an end with the styles
that a new styler, whatever its digests, stores in a pass over the whole document, but for the signs
of zeros and for what groups are shared; the two are equal unless a number in them is none. Without
other declarations, it finds no difference at any element of the branch, and leaves all styles as
they were. -/
theorem Styler.Reachable.restyle_branch_agrees {settings : Settings} {metrics : FontMetrics}
    {set : SheetSet} {m : Medium} {s : Styler} (hs : Reachable settings metrics set m s)
    (hfair : metrics.Fair) (hset : set.Fitting m) {t : StyledTree ε} {root e : ε}
    (ht : t.Rooted root) (hfits : t.Fitting root) (he : e ∈ (t.branch root).elements)
    {inline? hints? : ε → Option DeclarationBlock}
    (hfits' : (t.withDeclarations inline? hints?).Fitting root)
    (hsame : ∀ x ∈ (t.branch root).elements, x ∉ (t.branch e).elements →
      inline? x = t.inline? x ∧ hints? x = t.hints? x) (digest : Feature → Digest) :
    let t' := t.withDeclarations inline? hints?
    ∃ first report, s.restyle t root = .ok (first, report) ∧
      (∃ s' r fresh r', first.restyle t' e = .ok (s', r) ∧
        (Styler.create settings metrics set m digest).restyle t' root = .ok (fresh, r') ∧
        ∀ x ∈ (t'.branch root).elements, ∃ style style', s'.styles[t'.key x]? = some style ∧
          fresh.styles[t'.key x]? = some style' ∧ style.plainForm = style'.plainForm ∧
          (style.Numeric → (style == style') = true)) ∧
      ((∀ x ∈ (t.branch e).elements, ∀ style, first.styles[t.key x]? = some style →
          style.Numeric) →
        ∃ s' r, first.restyle t e = .ok (s', r) ∧
          r = ⟨(t.branch e).elements.length, r.shared, [], .equal, []⟩ ∧
          (∀ key, (∀ x ∈ (t.branch e).elements, t.key x ≠ key) →
            s'.styles[key]? = first.styles[key]? ∧
              s'.differences[key]? = first.differences[key]?) ∧
          ∀ x ∈ (t.branch e).elements, s'.differences[t.key x]? = some .equal ∧
            ∃ style style', first.styles[t.key x]? = some style ∧
              s'.styles[t.key x]? = some style' ∧ style.plainForm = style'.plainForm ∧
              (style == style') = true) := by
  intro t'
  let i : PassInput ε := ⟨settings, metrics, .build set m, s.digest, t⟩
  have hfits (x : ε) (hx : x ∈ (t.branch root).elements) : i.naive.Fits x :=
    PassInput.fits_naive_build hset hfits hx
  have hfits' (x : ε) (hx : x ∈ (t.branch root).elements) : (i.withTree t').naive.Fits x :=
    PassInput.fits_naive_build hset hfits' hx
  obtain ⟨first, report, hfirst, hsettled⟩ :=
    PassInput.exists_restyle_root (i := i) ht hfair hfits hs.resting
  have hdone : i.UpToDate root first := ⟨hs.resting.restyle hfirst, hsettled⟩
  obtain ⟨s', r, hrun, hdone'⟩ := hdone.exists_restyle_replaced ht hfair he hfits' hsame
  obtain ⟨fresh, r', hfresh, hsettled'⟩ := PassInput.exists_restyle_root
    (i := { i.withTree t' with digest := digest })
    (ht.withDeclarations inline? hints?) hfair hfits' (Reachable.create set m digest).resting
  exact ⟨first, report, hfirst,
    ⟨s', r, fresh, r', hrun, hfresh, fun x hx =>
      (hdone'.settled x hx).exists_styles (hsettled' x hx)⟩,
    fun hnumeric => hdone.exists_restyle_unchanged ht hfair he hfits hnumeric⟩

namespace Relative

/-- Declarations that let the elder child float to the left. -/
def floats (e : Relative) : Option DeclarationBlock :=
  if e = elder then some [⟨.known .float, .floating .left, false⟩] else none

theorem fitting_floats (state : Relative → ElementState) :
    ((tree state).withDeclarations floats fun _ => none).Fitting parent := by
  rintro e - block (h | h) d hd
  · cases h
  · cases e with
    | elder =>
      obtain rfl := Option.some.inj h
      rw [List.mem_singleton.mp hd]
      exact Declaration.fits_of_root rfl
    | parent | younger => cases h

end Relative

/-- In a family the elder child is styled again, once after it came to float, and once as it was. -/
theorem Styler.Reachable.restyle_branch_agrees_family :
    let t := Relative.tree fun _ => .none
    let t' := t.withDeclarations Relative.floats fun _ => none
    let s := Styler.create .default .approximate Relative.sheets .screen
    ∃ first report, s.restyle t .parent = .ok (first, report) ∧
      (∃ s' r fresh r', first.restyle t' .elder = .ok (s', r) ∧
        s.restyle t' .parent = .ok (fresh, r') ∧
        ∀ x ∈ (t'.branch .parent).elements, ∃ style style', s'.styles[t'.key x]? = some style ∧
          fresh.styles[t'.key x]? = some style' ∧ style.plainForm = style'.plainForm ∧
          (style.Numeric → (style == style') = true)) ∧
      ∃ s' r, first.restyle t .elder = .ok (s', r) ∧
        r = ⟨(t.branch .elder).elements.length, r.shared, [], .equal, []⟩ ∧
        (∀ key, (∀ x ∈ (t.branch .elder).elements, t.key x ≠ key) →
          s'.styles[key]? = first.styles[key]? ∧
            s'.differences[key]? = first.differences[key]?) ∧
        ∀ x ∈ (t.branch .elder).elements, s'.differences[t.key x]? = some .equal ∧
          ∃ style style', first.styles[t.key x]? = some style ∧
            s'.styles[t.key x]? = some style' ∧ style.plainForm = style'.plainForm ∧
            (style == style') = true := by
  intro t t' s
  have hs : Reachable .default .approximate Relative.sheets .screen s := .create _ _ _
  have helder : Relative.elder ∈ (t.branch .parent).elements := by
    simp [t, Relative.tree, Relative.branch, Branch.elements, Branch.elementsOfAll]
  have hbranch : (t.branch .elder).elements = [.elder] := by
    simp [t, Relative.tree, Relative.branch, Branch.elements, Branch.elementsOfAll]
  obtain ⟨first, report, hfirst, hreplaced, hunchanged⟩ := hs.restyle_branch_agrees
    FontMetrics.fair_approximate Relative.fitting_sheets (Relative.rooted_tree _)
    (Relative.fitting_tree _) helder (Relative.fitting_floats _)
    (fun x _ hout =>
      ⟨if_neg fun heq => hout (by rw [heq, hbranch]; exact List.mem_cons_self), rfl⟩) hash
  refine ⟨first, report, hfirst, hreplaced, hunchanged fun x hx style hstored => ?_⟩
  rw [hbranch, List.mem_singleton] at hx
  subst hx
  obtain ⟨first', _, hfirst', hsettled⟩ := PassInput.exists_restyle_root
    (i := ⟨.default, .approximate, .build Relative.sheets .screen, s.digest, t⟩)
    (Relative.rooted_tree _) FontMetrics.fair_approximate
    (fun x hx => PassInput.fits_naive_build Relative.fitting_sheets (Relative.fitting_tree _) hx)
    hs.resting
  obtain ⟨rfl, -⟩ := Prod.mk.inj (Except.ok.inj (hfirst.symm.trans hfirst'))
  obtain ⟨stored, style', hstored', hstyle', hplain⟩ :=
    (hsettled .elder helder).exists_style Relative.countable_sheets
  obtain rfl := Option.some.inj (hstored.symm.trans hstored')
  have hnumeric : ((Relative.sheets.naivePass .screen .default .approximate t).style .elder).map
      (fun style => decide style.Numeric) = .ok true := by decide +kernel
  rw [hstyle'] at hnumeric
  exact (of_decide_eq_true (Except.ok.inj hnumeric)).of_plainForm_eq hplain.symm

end StyleEngine
