import StyleEngine.Proofs.Matching.Filter

/-!
# Entering and leaving

To leave an element undoes to enter it, whatever other elements are counted and whatever features
they have in common with it. A filter is a map without zeros, so it is told by how often it counts
each digest, and that goes up and down by what the element holds.

## Main definitions

* `AncestorFilter.count`: how often a filter counts a digest.
* `AncestorFilter.Positive`: a filter that stores no zero.
* `AncestorFilter.Call`: what can be asked of a filter that changes it.
* `AncestorFilter.pushUpTo`: entering with counts that stop at a greatest one.

## Main statements

* `AncestorFilter.Positive.equiv_pop_push`: leaving undoes entering.
* `AncestorFilter.Positive.foldl_run`: no calls store a zero.
* `AncestorFilter.pushUpTo_eq_push`: a greatest count does not show below it.
-/

namespace StyleEngine

namespace AncestorFilter

variable {ε κ : Type} [BEq κ] [Hashable κ]

/-- How often the filter counts a digest. -/
def count (f : AncestorFilter κ) (k : κ) : Nat :=
  f.counts.getD k 0

/-- Whether no count that is stored is zero. -/
def Positive (f : AncestorFilter κ) : Prop :=
  ∀ (k : κ) (n : Nat), f.counts[k]? = some n → 0 < n

variable [LawfulBEq κ] {f f' : AncestorFilter κ} {digest : Feature → κ} {t : ElementTree ε} {e : ε}

/-! ## Counts -/

@[simp] theorem count_insertKey (f : AncestorFilter κ) (k k' : κ) :
    (f.insertKey k).count k' = f.count k' + if k == k' then 1 else 0 := by
  rw [count, insertKey, Std.HashMap.getD_insert]
  split
  · next hk => rw [eq_of_beq hk, count]
  · rfl

@[simp] theorem count_eraseKey (f : AncestorFilter κ) (k k' : κ) :
    (f.eraseKey k).count k' = f.count k' - if k == k' then 1 else 0 := by
  unfold eraseKey count
  split
  · next hnone =>
    by_cases hk : k == k'
    · obtain rfl := eq_of_beq hk
      simp [Std.HashMap.getD_eq_getD_getElem?, hnone]
    · simp [hk]
  · next n hsome =>
    have hcount : f.counts.getD k 0 = n := by
      rw [Std.HashMap.getD_eq_getD_getElem?, hsome, Option.getD_some]
    by_cases hk : k == k'
    · obtain rfl := eq_of_beq hk
      rw [hcount]
      split
      · rw [Std.HashMap.getD_erase]
        simp
        omega
      · simp
    · split
      · simp [Std.HashMap.getD_erase, hk]
      · simp [Std.HashMap.getD_insert, hk]

theorem count_foldl_insertKey (f : AncestorFilter κ) (ks : List κ) (k : κ) :
    (ks.foldl insertKey f).count k = f.count k + ks.count k := by
  induction ks generalizing f with
  | nil => rfl
  | cons k' ks ih => rw [List.foldl_cons, ih, count_insertKey, List.count_cons]; omega

theorem count_foldl_eraseKey (f : AncestorFilter κ) (ks : List κ) (k : κ) :
    (ks.foldl eraseKey f).count k = f.count k - ks.count k := by
  induction ks generalizing f with
  | nil => rfl
  | cons k' ks ih => rw [List.foldl_cons, ih, count_eraseKey, List.count_cons]; omega

/-- Entering an element counts what it holds on top of what was counted. -/
theorem count_push (f : AncestorFilter κ) (digest : Feature → κ) (t : ElementTree ε) (e : ε)
    (k : κ) : (f.push digest t e).count k = f.count k + (keys digest t e).count k :=
  count_foldl_insertKey f _ k

theorem count_pop (f : AncestorFilter κ) (digest : Feature → κ) (t : ElementTree ε) (e : ε)
    (k : κ) : (f.pop digest t e).count k = f.count k - (keys digest t e).count k :=
  count_foldl_eraseKey f _ k

/-! ## No zeros -/

theorem positive_empty : (empty : AncestorFilter κ).Positive := by
  intro k n h
  simp [empty] at h

theorem Positive.insertKey (hf : f.Positive) (k : κ) : (f.insertKey k).Positive := by
  intro k' n h
  rw [AncestorFilter.insertKey, Std.HashMap.getElem?_insert] at h
  split at h
  · exact Option.some.inj h ▸ Nat.succ_pos _
  · exact hf k' n h

theorem Positive.eraseKey (hf : f.Positive) (k : κ) : (f.eraseKey k).Positive := by
  unfold AncestorFilter.eraseKey
  split
  · exact hf
  · next m _ =>
    intro k' n h
    split at h
    · rw [Std.HashMap.getElem?_erase] at h
      split at h
      · cases h
      · exact hf k' n h
    · rw [Std.HashMap.getElem?_insert] at h
      split at h
      · obtain rfl := Option.some.inj h
        omega
      · exact hf k' n h

theorem Positive.push (hf : f.Positive) (digest : Feature → κ) (t : ElementTree ε) (e : ε) :
    (f.push digest t e).Positive :=
  List.foldlRecOn _ _ hf fun _ hf k _ => hf.insertKey k

theorem Positive.pop (hf : f.Positive) (digest : Feature → κ) (t : ElementTree ε) (e : ε) :
    (f.pop digest t e).Positive :=
  List.foldlRecOn _ _ hf fun _ hf k _ => hf.eraseKey k

theorem Counts.positive {l : List κ} (h : f.Counts l) : f.Positive := by
  intro k n hk
  rw [h k] at hk
  split at hk
  · next hmem => exact Option.some.inj hk ▸ List.count_pos_iff.mpr hmem
  · cases hk

/-- Filters without zeros that count alike are one map. -/
theorem Positive.equiv (hf : f.Positive) (hf' : f'.Positive) (h : ∀ k, f.count k = f'.count k) :
    f.counts.Equiv f'.counts := by
  refine .of_forall_getElem?_eq fun k => ?_
  have hcount := h k
  rw [count, count, Std.HashMap.getD_eq_getD_getElem?, Std.HashMap.getD_eq_getD_getElem?] at hcount
  cases hk : f.counts[k]? with
  | none =>
    cases hk' : f'.counts[k]? with
    | none => rfl
    | some n =>
      have := hf' k n hk'
      simp [hk, hk'] at hcount
      omega
  | some m =>
    cases hk' : f'.counts[k]? with
    | none =>
      have := hf k m hk
      simp [hk, hk'] at hcount
      omega
    | some n => simpa [hk, hk'] using hcount

/-- Filters that count the same list are one map. -/
theorem Counts.equiv {l : List κ} (h : f.Counts l) (h' : f'.Counts l) :
    f.counts.Equiv f'.counts :=
  .of_forall_getElem?_eq fun k => (h k).trans (h' k).symm

/-- Leaving an element undoes entering it. -/
theorem Positive.equiv_pop_push (hf : f.Positive) (digest : Feature → κ) (t : ElementTree ε)
    (e : ε) : ((f.push digest t e).pop digest t e).counts.Equiv f.counts := by
  refine ((hf.push digest t e).pop digest t e).equiv hf fun k => ?_
  rw [count_pop, count_push, Nat.add_sub_cancel]

/-! ## Calls -/

/-- What can be asked of a filter that changes it. -/
inductive Call (ε : Type)
  | push (e : ε)
  | pop (e : ε)
  | clear
  /-- Start again with the ancestors of an element. -/
  | rebuild (e : ε)

/-- The filter after a call. -/
def run (digest : Feature → κ) (t : ElementTree ε) (f : AncestorFilter κ) :
    Call ε → AncestorFilter κ
  | .push e => f.push digest t e
  | .pop e => f.pop digest t e
  | .clear => empty
  | .rebuild e => ofAncestors digest t e

/-- No calls store a zero, in whatever order they come. -/
theorem Positive.foldl_run (hf : f.Positive) (digest : Feature → κ) (t : ElementTree ε)
    (calls : List (Call ε)) : (calls.foldl (run digest t) f).Positive := by
  refine List.foldlRecOn _ _ hf fun f hf call _ => ?_
  cases call with
  | push e => exact hf.push digest t e
  | pop e => exact hf.pop digest t e
  | clear => exact positive_empty
  | rebuild e => exact (counts_ofAncestors digest t e).positive

/-! ## Counts that stop at a greatest one -/

/-- Counts a digest, up to `cap` times. -/
def insertKeyUpTo (cap : Nat) (f : AncestorFilter κ) (k : κ) : AncestorFilter κ :=
  ⟨f.counts.insert k (min (f.counts.getD k 0 + 1) cap)⟩

/-- Enters an element with counts that stop at `cap`, as those in words of a fixed size do. -/
def pushUpTo (cap : Nat) (digest : Feature → κ) (f : AncestorFilter κ) (t : ElementTree ε) (e : ε) :
    AncestorFilter κ :=
  (keys digest t e).foldl (insertKeyUpTo cap) f

theorem foldl_insertKeyUpTo {cap : Nat} (ks : List κ) (h : ∀ k, f.count k + ks.count k ≤ cap) :
    ks.foldl (insertKeyUpTo cap) f = ks.foldl insertKey f := by
  induction ks generalizing f with
  | nil => rfl
  | cons k ks ih =>
    have hfirst : insertKeyUpTo cap f k = f.insertKey k := by
      have hk := h k
      rw [List.count_cons_self, count] at hk
      rw [insertKeyUpTo, insertKey, Nat.min_eq_left (by omega)]
    rw [List.foldl_cons, List.foldl_cons, hfirst]
    refine ih fun k' => ?_
    have hk' := h k'
    rw [List.count_cons] at hk'
    rw [count_insertKey]
    omega

/-- A greatest count does not show where no count comes to it. -/
theorem pushUpTo_eq_push {cap : Nat} (h : ∀ k, f.count k + (keys digest t e).count k ≤ cap) :
    f.pushUpTo cap digest t e = f.push digest t e :=
  foldl_insertKeyUpTo _ h

end AncestorFilter

end StyleEngine
