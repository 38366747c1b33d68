import Mathlib.Data.List.DropRight
import StyleEngine.Pass.Sharing

/-!
# The last siblings

A history of siblings is a window on the calls that were made to it: it holds the last of them, as
many as its limit allows, and looks for a signature from the most recent one back.

## Main definitions

* `SiblingHistory.rememberAll`: a history after more calls.

## Main statements

* `SiblingHistory.entries_rememberAll`: what a history holds after more calls.
* `SiblingHistory.find?_rememberAll_eq_some_iff`: which sibling is found.
-/

namespace StyleEngine.SiblingHistory

variable {h : SiblingHistory} {key : ElementKey} {s : Signature} {limit : Nat}
  {calls : List (ElementKey × Signature)}

/-- The history after `calls`, the first of them made first. -/
def rememberAll (h : SiblingHistory) (calls : List (ElementKey × Signature)) : SiblingHistory :=
  calls.foldl (fun h call => h.remember call.1 call.2) h

/-! ## One call -/

/-- A call puts the sibling in front and cuts off what is past the limit. -/
theorem entries_remember (hfits : h.size ≤ h.limit) :
    (h.remember key s).entries = ((key, s) :: h.entries).take h.limit := by
  rw [size] at hfits
  unfold remember
  split
  · next hzero => simp_all
  · next hpos =>
    obtain ⟨n, hn⟩ := Nat.exists_eq_succ_of_ne_zero hpos
    rw [hn] at hfits ⊢
    rw [List.take_succ_cons]
    split
    · next hfull => rw [List.dropLast_eq_take, hfull, Nat.succ_sub_one]
    · next hroom => rw [List.take_of_length_le (by omega)]

theorem size_remember_le (hfits : h.size ≤ h.limit) : (h.remember key s).size ≤ h.limit := by
  rw [size, entries_remember hfits]
  exact List.length_take_le _ _

/-! ## Many calls -/

/-- After more calls, a history holds the last of them and then the last that it held before. -/
theorem entries_rememberAll (hfits : h.size ≤ h.limit) :
    (h.rememberAll calls).entries = (calls.reverse ++ h.entries).take h.limit := by
  induction calls generalizing h with
  | nil => exact (List.take_of_length_le hfits).symm
  | cons call calls ih =>
    have hnext := ih (h := h.remember call.1 call.2) (by simpa using size_remember_le hfits)
    -- What the first call has cut off, the others would cut off as well.
    rw [limit_remember, entries_remember hfits, List.take_append, List.take_take,
      Nat.min_eq_left (Nat.sub_le _ _), ← List.take_append] at hnext
    rw [List.reverse_cons, List.append_assoc]
    exact hnext

theorem entries_rememberAll_empty :
    ((empty limit).rememberAll calls).entries = calls.reverse.take limit := by
  rw [entries_rememberAll (Nat.zero_le _)]
  exact congrArg (List.take limit) (List.append_nil _)

/-- The last calls are held in order, the most recent one in front. -/
theorem reverse_entries_rememberAll :
    ((empty limit).rememberAll calls).entries.reverse = calls.rtake limit := by
  rw [entries_rememberAll_empty, List.rtake_eq_reverse_take_reverse]

theorem size_rememberAll : ((empty limit).rememberAll calls).size = min limit calls.length := by
  rw [size, entries_rememberAll_empty, List.length_take, List.length_reverse]

/-! ## Looking for a signature -/

/-- What is found among the first `n`. -/
theorem find?_take_eq_some_iff {α : Type} {l : List α} {n : Nat} {p : α → Bool} {a : α} :
    (l.take n).find? p = some a ↔ p a = true ∧
      ∃ before after, l = before ++ a :: after ∧ before.length < n ∧ ∀ x ∈ before, p x = false := by
  rw [List.find?_eq_some_iff_append]
  refine and_congr_right fun _ => ⟨?_, ?_⟩
  · rintro ⟨before, after, htake, hbefore⟩
    refine ⟨before, after ++ l.drop n, ?_, ?_, by simpa using hbefore⟩
    · calc l = l.take n ++ l.drop n := (List.take_append_drop n l).symm
        _ = before ++ a :: (after ++ l.drop n) := by rw [htake, List.append_assoc, List.cons_append]
    · have hlength := List.length_take_le n l
      rw [htake, List.length_append, List.length_cons] at hlength
      omega
  · rintro ⟨before, after, rfl, hlt, hbefore⟩
    obtain ⟨k, hk⟩ := Nat.exists_eq_add_of_lt hlt
    refine ⟨before, after.take k, ?_, by simpa using hbefore⟩
    rw [List.take_append, List.take_of_length_le (Nat.le_of_lt hlt), hk]
    simp [Nat.add_assoc]

/-- The sibling that is found is the last one with an equal signature, if it is not too far back. -/
theorem find?_rememberAll_eq_some_iff :
    ((empty limit).rememberAll calls).find? s = some key ↔
      ∃ before found after, calls = before ++ (key, found) :: after ∧ after.length < limit ∧
        (found == s) = true ∧ ∀ call ∈ after, (call.2 == s) = false := by
  rw [find?, entries_rememberAll_empty, Option.map_eq_some_iff]
  constructor
  · rintro ⟨⟨_, found⟩, hfind, rfl⟩
    obtain ⟨hfound, after, before, hcalls, hlt, hafter⟩ := find?_take_eq_some_iff.mp hfind
    refine ⟨before.reverse, found, after.reverse, ?_, by simpa using hlt, hfound,
      by simpa using hafter⟩
    rw [← List.reverse_reverse calls, hcalls]
    simp
  · rintro ⟨before, found, after, rfl, hlt, hfound, hafter⟩
    refine ⟨(key, found), find?_take_eq_some_iff.mpr ⟨hfound, after.reverse, before.reverse, ?_⟩,
      rfl⟩
    exact ⟨by simp, by simpa using hlt, by simpa using hafter⟩

/-- No sibling is found if none of the last ones has an equal signature. -/
theorem find?_rememberAll_eq_none_iff :
    ((empty limit).rememberAll calls).find? s = none ↔
      ∀ call ∈ calls.rtake limit, (call.2 == s) = false := by
  rw [find?, Option.map_eq_none_iff, List.find?_eq_none, ← reverse_entries_rememberAll]
  simp

end StyleEngine.SiblingHistory
