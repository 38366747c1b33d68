import StyleEngine.Proofs.Matching.Unread

/-!
# Answers of earlier passes

No answer in a cache is from a later pass than the current one, whatever is matched. At the start of
the next pass there is therefore no answer that can be read, even when the numbers of passes start
over.

## Main definitions

* `MatchCache.Dated`: a cache without answers from later passes.

## Main statements

* `MatchCache.lasting_dated`: caches stay so while they are asked and answers are put in.
* `MatchCache.Dated.current?_beginPass`: a new pass starts without answers.
-/

namespace StyleEngine

variable {ε : Type}

namespace MatchCache

/-- No answer is from a later pass than the current one. -/
def Dated (c : MatchCache) : Prop :=
  ∀ (k : Key) (epoch : UInt32) (outcome : Outcome),
    c.store[k]? = some (epoch, outcome) → epoch ≤ c.epoch

variable {c : MatchCache}

theorem dated_empty : empty.Dated := by
  intro k epoch outcome h
  simp [empty] at h

theorem dated_clear (c : MatchCache) : c.clear.Dated := by
  intro k epoch outcome h
  simp [clear] at h

theorem Dated.get (h : c.Dated) (e : ElementKey) (id : SelectorId) (place : Nat) :
    (c.get e id place).2.Dated := by
  unfold MatchCache.get
  split
  · exact h
  · split <;> exact h

theorem Dated.set (h : c.Dated) (e : ElementKey) (id : SelectorId) (place : Nat)
    (outcome : Outcome) : (c.set e id place outcome).Dated := by
  unfold MatchCache.set
  split
  · next k hk =>
    intro k' epoch outcome' h'
    rw [Std.HashMap.getElem?_insert] at h'
    split at h'
    · obtain ⟨rfl, -⟩ := Prod.mk.inj (Option.some.inj h')
      exact UInt32.le_refl _
    · exact h k' epoch outcome' h'
  · exact h

theorem lasting_dated : Lasting Dated where
  get e id place h := h.get e id place
  set e id place outcome h := h.set e id place outcome

theorem le_of_lt_succ {a epoch : UInt32} (hnext : ¬(epoch + 1 == 0) = true) (h : a ≤ epoch) :
    a < epoch + 1 := by
  rw [beq_iff_eq, ← UInt32.toNat_inj] at hnext
  rw [UInt32.le_iff_toNat_le] at h
  rw [UInt32.lt_iff_toNat_lt]
  have hlt := epoch.toNat_lt
  rw [UInt32.toNat_add] at hnext ⊢
  simp only [UInt32.reduceToNat] at hnext ⊢
  omega

/-- What is stored at the start of a pass is from earlier passes. -/
theorem Dated.lt_of_beginPass (h : c.Dated) {k : Key} {epoch : UInt32} {outcome : Outcome}
    (hk : c.beginPass.store[k]? = some (epoch, outcome)) : epoch < c.beginPass.epoch := by
  unfold beginPass at hk ⊢
  simp only at hk ⊢
  split at hk
  · simp at hk
  · next hkept =>
    rw [Bool.or_eq_true, not_or] at hkept
    exact le_of_lt_succ hkept.1 (h k epoch outcome hk)

theorem Dated.beginPass (h : c.Dated) : c.beginPass.Dated :=
  fun _ _ _ hk => UInt32.le_of_lt (h.lt_of_beginPass hk)

/-- A new pass starts without answers. -/
theorem Dated.current?_beginPass (h : c.Dated) (k : Key) : c.beginPass.current? k = none := by
  unfold current?
  split
  · next epoch outcome hk =>
    have hlt := h.lt_of_beginPass hk
    rw [if_neg]
    rw [beq_iff_eq]
    rintro rfl
    exact UInt32.lt_irrefl _ hlt
  · rfl

end MatchCache

end StyleEngine
