import StyleEngine.Proofs.Pass.History

/-!
# What a pass reports

A pass meets the elements of a branch in document order, and does not go below an element that is
cut off from the document. What it reports can be told from the styles that were stored before and
are stored after it: every element that it meets is recorded once, under its difference.

## Main definitions

* `StyledTree.met`: the elements that a pass meets.
* `Report.meet`: what one of them adds to the report.
* `StyledTree.Recorded`: some elements have been met, and nothing else was stored or reported.

## Main statements

* `Styler.recorded_restyle`: a pass records what it meets.
* `StyledTree.Recorded.report_unchanged`: the report of a pass that found no difference.
-/

namespace StyleEngine

variable {ε : Type}

/-! ## Reports -/

/-- The difference between the styles of an element before and after it was styled. -/
def differenceAt (before after : Std.HashMap ElementKey ComputedStyle) (key : ElementKey) :
    Difference :=
  match before[key]?, after[key]? with
  | some old, some new => old.difference new
  | _, _ => .containingBlockLayout

namespace Report

/-- The report with no word of sharing. -/
def withoutSharing (r : Report) : Report :=
  { r with shared := 0 }

/-- Meets an element: it is recorded with its difference, or discarded if it is cut off. -/
def meet (t : StyledTree ε) (before after : Std.HashMap ElementKey ComputedStyle) (r : Report)
    (e : ε) : Report :=
  if t.isConnected e then r.record (t.key e) (differenceAt before after (t.key e))
  else { r with discarded := r.discarded ++ [t.key e] }

variable {t : StyledTree ε} {before after : Std.HashMap ElementKey ComputedStyle} {l : List ε}

/-- Only the differences of the elements count. -/
theorem foldl_meet_congr {before' after' : Std.HashMap ElementKey ComputedStyle}
    (h : ∀ e ∈ l, differenceAt before after (t.key e) = differenceAt before' after' (t.key e))
    (r : Report) : l.foldl (meet t before after) r = l.foldl (meet t before' after') r := by
  refine List.foldl_ext _ _ r fun r e he => ?_
  rw [meet, meet, h e he]

/-- Elements without a difference are counted, and that is all. -/
theorem foldl_meet_equal (hconnected : ∀ e ∈ l, t.isConnected e = true)
    (hequal : ∀ e ∈ l, differenceAt before after (t.key e) = .equal) (r : Report) :
    l.foldl (meet t before after) r = { r with styled := r.styled + l.length } := by
  induction l generalizing r with
  | nil => rfl
  | cons e l ih =>
    have hmeet : meet t before after r e = { r with styled := r.styled + 1 } := by
      have hworst : max r.worst .equal = r.worst := by cases r.worst <;> decide
      rw [meet, if_pos (hconnected e List.mem_cons_self), hequal e List.mem_cons_self, record,
        hworst, if_pos rfl]
    rw [List.foldl_cons, hmeet, ih (fun x hx => hconnected x (List.mem_cons_of_mem e hx))
      fun x hx => hequal x (List.mem_cons_of_mem e hx), List.length_cons, Nat.add_assoc,
      Nat.add_comm 1]

end Report

/-! ## Elements that are met -/

namespace StyledTree

variable {t : StyledTree ε}

mutual
/-- The elements of a branch that a pass meets, in document order: none below an element that is cut
off. -/
def met (t : StyledTree ε) (b : Branch ε) : List ε :=
  match b with
  | .node e cs => e :: if t.isConnected e then t.metOfAll cs else []
def metOfAll (t : StyledTree ε) (bs : List (Branch ε)) : List ε :=
  match bs with
  | [] => []
  | b :: bs => t.met b ++ t.metOfAll bs
end

mutual
/-- Where no element is cut off, a pass meets all elements. -/
theorem met_eq_elements (b : Branch ε) (h : ∀ e ∈ b.elements, t.isConnected e = true) :
    t.met b = b.elements := by
  match b with
  | .node e cs =>
    rw [Branch.elements, List.forall_mem_cons] at h
    rw [met, Branch.elements, if_pos h.1, metOfAll_eq_elementsOfAll cs h.2]
theorem metOfAll_eq_elementsOfAll (bs : List (Branch ε))
    (h : ∀ e ∈ Branch.elementsOfAll bs, t.isConnected e = true) :
    t.metOfAll bs = Branch.elementsOfAll bs := by
  match bs with
  | [] => rw [metOfAll, Branch.elementsOfAll]
  | b :: bs =>
    rw [Branch.elementsOfAll, List.forall_mem_append] at h
    rw [metOfAll, Branch.elementsOfAll, met_eq_elements b h.1, metOfAll_eq_elementsOfAll bs h.2]
end

/-- A run meets the elements of `l`, each once: it reports and stores their differences, has styles
for those that are connected, and touches no others. -/
structure Recorded (t : StyledTree ε) (l : List ε) (p p' : PassState) : Prop where
  report : p'.report.withoutSharing =
    l.foldl (Report.meet t p.styler.styles p'.styler.styles) p.report.withoutSharing
  committed : ∀ e ∈ l, t.isConnected e = true → p'.styler.styles[t.key e]?.isSome ∧
    p'.styler.differences[t.key e]? =
      some (differenceAt p.styler.styles p'.styler.styles (t.key e))
  forgotten : ∀ e ∈ l, t.isConnected e = false →
    p'.styler.styles[t.key e]? = none ∧ p'.styler.differences[t.key e]? = none
  kept : ∀ key ∉ l.map t.key, p'.styler.styles[key]? = p.styler.styles[key]? ∧
    p'.styler.differences[key]? = p.styler.differences[key]?

namespace Recorded

variable {l l' : List ε} {p p' p'' : PassState}

/-- A run that only counts shared groups, and stores nothing. -/
theorem of_same (hreport : p'.report.withoutSharing = p.report.withoutSharing)
    (hstyles : p'.styler.styles = p.styler.styles)
    (hdifferences : p'.styler.differences = p.styler.differences) : t.Recorded [] p p' where
  report := hreport
  committed _ he := absurd he List.not_mem_nil
  forgotten _ he := absurd he List.not_mem_nil
  kept key _ := ⟨by rw [hstyles], by rw [hdifferences]⟩

/-- What two runs meet one after the other. The differences of each are those between the start and
the end of both, since neither touches what the other meets. -/
theorem trans (h : t.Recorded l p p') (h' : t.Recorded l' p' p'')
    (hdisjoint : (l.map t.key).Disjoint (l'.map t.key)) : t.Recorded (l ++ l') p p'' := by
  have hlater (e : ε) (he : e ∈ l) := h'.kept (t.key e) (hdisjoint (List.mem_map_of_mem he))
  have hearlier (e : ε) (he : e ∈ l') :=
    h.kept (t.key e) fun hmem => hdisjoint hmem (List.mem_map_of_mem he)
  have hfirst (e : ε) (he : e ∈ l) : differenceAt p.styler.styles p''.styler.styles (t.key e) =
      differenceAt p.styler.styles p'.styler.styles (t.key e) := by
    rw [differenceAt, differenceAt, (hlater e he).1]
  have hsecond (e : ε) (he : e ∈ l') : differenceAt p.styler.styles p''.styler.styles (t.key e) =
      differenceAt p'.styler.styles p''.styler.styles (t.key e) := by
    rw [differenceAt, differenceAt, (hearlier e he).1]
  refine ⟨?_, fun e he hconnected => ?_, fun e he hcut => ?_, fun key hkey => ?_⟩
  · rw [List.foldl_append, h'.report, h.report,
      Report.foldl_meet_congr fun e he => (hfirst e he).symm]
    exact Report.foldl_meet_congr (fun e he => (hsecond e he).symm) _
  · rcases List.mem_append.mp he with he | he
    · rw [(hlater e he).1, (hlater e he).2, hfirst e he]
      exact h.committed e he hconnected
    · rw [hsecond e he]
      exact h'.committed e he hconnected
  · rcases List.mem_append.mp he with he | he
    · rw [(hlater e he).1, (hlater e he).2]
      exact h.forgotten e he hcut
    · exact h'.forgotten e he hcut
  · rw [List.map_append, List.mem_append, not_or] at hkey
    obtain ⟨hstyles, hdifferences⟩ := h.kept key hkey.1
    obtain ⟨hstyles', hdifferences'⟩ := h'.kept key hkey.2
    exact ⟨hstyles'.trans hstyles, hdifferences'.trans hdifferences⟩

/-- The report of a run that met elements of the document, and found no difference at any. -/
theorem report_unchanged (h : t.Recorded l p p') (hstart : p.report = .empty)
    (hconnected : ∀ e ∈ l, t.isConnected e = true)
    (hequal : ∀ e ∈ l, differenceAt p.styler.styles p'.styler.styles (t.key e) = .equal) :
    p'.report = ⟨l.length, p'.report.shared, [], .equal, []⟩ := by
  have hreport := h.report
  rw [hstart, Report.foldl_meet_equal hconnected hequal] at hreport
  calc p'.report = { p'.report.withoutSharing with shared := p'.report.shared } := rfl
    _ = ⟨0 + l.length, p'.report.shared, [], .equal, []⟩ := by rw [hreport]; rfl
    _ = _ := by rw [Nat.zero_add]

end Recorded

end StyledTree

/-! ## Steps -/

namespace PassM

variable {α β : Type} {t : StyledTree ε} {l l' : List ε}

/-- A step that meets the elements of `l`. -/
def Records (t : StyledTree ε) (l : List ε) (x : PassM α) : Prop :=
  ∀ p a p', x.run p = .ok (a, p') → t.Recorded l p p'

theorem records_lift (x : Except StyleError α) : (liftM x : PassM α).Records t [] := by
  intro p a p' h
  obtain ⟨-, rfl⟩ := run_lift_eq_ok_iff.mp h
  exact .of_same rfl rfl rfl

theorem records_pure (a : α) : (pure a : PassM α).Records t [] :=
  records_lift (.ok a)

theorem records_modifyStyler {f : Styler → Styler} (hstyles : ∀ s, (f s).styles = s.styles)
    (hdifferences : ∀ s, (f s).differences = s.differences) :
    (modifyStyler f).Records t [] := by
  intro p a p' h
  obtain ⟨-, rfl⟩ := Prod.mk.inj (Except.ok.inj h)
  exact .of_same rfl (hstyles _) (hdifferences _)

theorem records_modifyReport {f : Report → Report}
    (hf : ∀ r, (f r).withoutSharing = r.withoutSharing) : (modifyReport f).Records t [] := by
  intro p a p' h
  obtain ⟨-, rfl⟩ := Prod.mk.inj (Except.ok.inj h)
  exact .of_same (hf _) rfl rfl

/-- What is read from the styler meets no element. -/
theorem records_styler_bind {f : Styler → PassM β} (hf : ∀ s, (f s).Records t l) :
    (PassM.styler >>= f).Records t l := by
  intro p b p' h
  rw [run_bind_of_ok (run_styler p)] at h
  exact hf p.styler p b p' h

theorem Records.append {x : PassM α} {f : α → PassM β} (hx : x.Records t l)
    (hf : ∀ a, (f a).Records t l') (hdisjoint : (l.map t.key).Disjoint (l'.map t.key)) :
    (x >>= f).Records t (l ++ l') := by
  intro p b p'' h
  obtain ⟨a, p', hrun, hrun'⟩ := exists_of_run_bind h
  exact (hx p a p' hrun).trans (hf a p' b p'' hrun') hdisjoint

/-- Before and after a step there can be others that meet no element. -/
theorem Records.bind {x : PassM α} {f : α → PassM β} (hx : x.Records t [])
    (hf : ∀ a, (f a).Records t l) : (x >>= f).Records t l :=
  hx.append hf (List.disjoint_nil_left _)

@[inherit_doc Records.bind]
theorem Records.bind_nil {x : PassM α} {f : α → PassM β} (hx : x.Records t l)
    (hf : ∀ a, (f a).Records t []) : (x >>= f).Records t l :=
  List.append_nil l ▸ hx.append hf (List.disjoint_nil_right _)

end PassM

namespace Styler

open PassM

variable {α : Type} {t : StyledTree ε}

theorem records_applyFresh (c : StyleContext) (es : List Entry) :
    (applyFresh c es).Records t [] :=
  records_styler_bind fun _ =>
    .bind (records_modifyStyler (fun _ => rfl) fun _ => rfl) fun _ => records_lift _

theorem records_attachPseudos (c : StyleContext) (collected : Collected) (ps : List PseudoElement)
    (style : ComputedStyle) : (attachPseudos c collected ps style).Records t [] := by
  induction ps generalizing style with
  | nil => exact records_pure style
  | cons p ps ih =>
    rw [attachPseudos]
    refine (records_applyFresh _ _).bind fun pseudo => ?_
    split
    · exact (records_lift _).bind fun style => ih style
    · exact ih style

theorem records_compact (key : ElementKey) (signature : Signature) (parent : Option ComputedStyle)
    (history : SiblingHistory) (style : ComputedStyle) :
    (compact key signature parent history style).Records t [] := by
  refine records_styler_bind fun s => ?_
  dsimp only
  split
  · exact .bind (records_modifyReport fun _ => rfl) fun _ => records_pure _
  · exact records_pure _
  · exact records_pure _

/-- An element of the document is recorded with the difference of the style that is stored. -/
theorem records_commit {e : ε} (he : t.isConnected e = true) (isRoot : Bool)
    (style : ComputedStyle) : (commit (t.key e) isRoot style).Records t [e] := by
  intro p a p' h
  obtain ⟨-, rfl⟩ := Prod.mk.inj (Except.ok.inj h)
  have hdifference : differenceAt p.styler.styles (p.styler.styles.insert (t.key e) style)
      (t.key e) = (p.styler.styles[t.key e]?).elim .containingBlockLayout (·.difference style) := by
    rw [differenceAt, Std.HashMap.getElem?_insert_self]
    cases p.styler.styles[t.key e]? <;> rfl
  refine ⟨?_, fun x hx _ => ?_, fun x hx hcut => ?_, fun key hkey => ?_⟩
  · rw [List.foldl_cons, List.foldl_nil, Report.meet, if_pos he]
    dsimp only
    rw [hdifference]
    rfl
  · obtain rfl := List.mem_singleton.mp hx
    dsimp only
    rw [hdifference]
    exact ⟨by simp, by simp⟩
  · obtain rfl := List.mem_singleton.mp hx
    rw [he] at hcut
    cases hcut
  · have hne : t.key e ≠ key := fun heq => hkey (heq ▸ List.mem_map_of_mem List.mem_cons_self)
    exact ⟨by simp [Std.HashMap.getElem?_insert, hne], by simp [Std.HashMap.getElem?_insert, hne]⟩

/-- An element that is cut off is discarded. -/
theorem records_discard {e : ε} (he : t.isConnected e = false) (a : α) :
    (do
      modifyStyler (·.forget (t.key e))
      modifyReport fun r => { r with discarded := r.discarded ++ [t.key e] }
      pure a).Records t [e] := by
  intro p a' p' h
  obtain ⟨-, rfl⟩ := Prod.mk.inj (Except.ok.inj h)
  refine ⟨?_, fun x hx hconnected => ?_, fun x hx _ => ?_, fun key hkey => ?_⟩
  · rw [List.foldl_cons, List.foldl_nil, Report.meet, if_neg (by simp [he])]
    rfl
  · obtain rfl := List.mem_singleton.mp hx
    rw [he] at hconnected
    cases hconnected
  · obtain rfl := List.mem_singleton.mp hx
    exact ⟨by simp [forget], by simp [forget]⟩
  · have hne : t.key e ≠ key := fun heq => hkey (heq ▸ List.mem_map_of_mem List.mem_cons_self)
    exact ⟨by simp [forget, Std.HashMap.getElem?_erase, hne],
      by simp [forget, Std.HashMap.getElem?_erase, hne]⟩

/-- Styling an element records it, whether it is part of the document or cut off. -/
theorem records_styleElement (parent : Option ComputedStyle) (history : SiblingHistory) (e : ε) :
    (styleElement t parent history e).Records t [e] := by
  intro p out p' h
  rw [styleElement, run_bind_of_ok (run_styler p)] at h
  obtain ⟨_, p₁, hcollect, h⟩ := exists_of_run_bind h
  have hcollected : t.Recorded [] p p₁ := by
    obtain ⟨-, rfl⟩ := Prod.mk.inj (Except.ok.inj hcollect)
    exact .of_same rfl rfl rfl
  refine hcollected.trans (?_ : t.Recorded [e] p₁ p') (List.disjoint_nil_left _)
  refine Records.bind (records_applyFresh _ _) (fun style => ?_) p₁ out p' h
  refine (records_attachPseudos _ _ _ _).bind fun style => ?_
  have hcommit (he : t.isConnected e = true) (style : ComputedStyle) (history : SiblingHistory) :
      (do
        commit (t.key e) (t.isRoot e) style
        pure (some (style, history)) : PassM _).Records t [e] :=
    (records_commit he _ _).bind_nil fun _ => records_pure _
  split
  · next he =>
    split
    · exact (records_compact _ _ _ _ _).bind fun _ => hcommit he _ _
    · exact hcommit he style history
  · next he => exact records_discard (Bool.eq_false_iff.mpr he) none

mutual
/-- Styling a branch records the elements that are met in it. -/
theorem records_styleBranch (t : StyledTree ε) (parent : Option ComputedStyle)
    (history : SiblingHistory) (b : Branch ε) (hkeys : ((t.met b).map t.key).Nodup) :
    (styleBranch t parent history b).Records t (t.met b) := by
  match b with
  | .node e cs =>
    intro p a p' h
    rw [styleBranch] at h
    obtain ⟨out, p₁, helement, h⟩ := exists_of_run_bind h
    have hfirst := records_styleElement parent history e p out p₁ helement
    have hsome := (out_of_styleElement helement).1
    rw [StyledTree.met] at hkeys ⊢
    cases out with
    | none =>
      have hcut : ¬t.isConnected e = true := by simp [← hsome]
      obtain ⟨-, rfl⟩ := Prod.mk.inj (Except.ok.inj h)
      rwa [if_neg hcut]
    | some styled =>
      obtain ⟨style, history⟩ := styled
      have hconnected : t.isConnected e = true := hsome.symm
      rw [if_pos hconnected, List.map_cons, List.nodup_cons] at hkeys
      rw [if_pos hconnected]
      refine hfirst.trans (l := [e]) ?_ (by simpa using hkeys.1)
      dsimp only at h
      refine (?_ : Records t (t.metOfAll cs) _) p₁ a p' h
      refine .bind (records_modifyStyler (fun _ => rfl) fun _ => rfl) fun _ => ?_
      refine records_styler_bind fun s => ?_
      refine .bind_nil (records_styleChildren t style (.empty s.settings.scanLimit) cs hkeys.2)
        fun _ => ?_
      exact .bind (records_modifyStyler (fun _ => rfl) fun _ => rfl) fun _ => records_pure _
theorem records_styleChildren (t : StyledTree ε) (parent : ComputedStyle)
    (history : SiblingHistory) (bs : List (Branch ε)) (hkeys : ((t.metOfAll bs).map t.key).Nodup) :
    (styleChildren t parent history bs).Records t (t.metOfAll bs) := by
  match bs with
  | [] =>
    rw [styleChildren, StyledTree.metOfAll]
    exact records_pure ()
  | b :: bs =>
    rw [StyledTree.metOfAll] at hkeys ⊢
    rw [List.map_append, List.nodup_append'] at hkeys
    rw [styleChildren]
    refine .bind (records_modifyStyler (fun _ => rfl) fun _ => rfl) fun _ => ?_
    exact (records_styleBranch t (some parent) history b hkeys.1).append
      (fun history => records_styleChildren t parent history bs hkeys.2.1) hkeys.2.2
end

/-- A pass over an element with keys that tell elements apart records what it meets, and nothing
else. -/
theorem recorded_restyle {s s' : Styler} {r : Report} {t : StyledTree ε} {e : ε}
    (hkeys : ((t.met (t.branch e)).map t.key).Nodup) (hrun : s.restyle t e = .ok (s', r)) :
    t.Recorded (t.met (t.branch e)) ⟨s, .empty⟩ ⟨s', r⟩ := by
  obtain ⟨parent, history, -, hpass⟩ := exists_run_of_restyle hrun
  have hbegin : t.Recorded [] ⟨s, .empty⟩ ⟨s.beginPass t e, .empty⟩ := .of_same rfl rfl rfl
  exact hbegin.trans (records_styleBranch t parent _ _ hkeys _ _ _ hpass)
    (List.disjoint_nil_left _)

end Styler

end StyleEngine
