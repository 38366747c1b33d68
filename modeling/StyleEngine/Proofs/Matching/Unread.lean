import StyleEngine.Cascade.Collect
import StyleEngine.Proofs.Matching.Memory

/-!
# Notes are not read

Matching writes notes and never reads them. On memories with one cache it comes to one answer and
leaves one cache, whatever is noted and whether notes are taken at all. All that is done to a cache
on the way is asking it and putting answers in, so what these two keep, matching keeps.

## Main definitions

* `MatchCache.Lasting`: a property of caches that asking and answering keep.
* `MatchM.Unread`: a computation that hangs on the cache alone, and keeps a property of it.

## Main statements

* `RuleIndex.unread_collect`: collecting is such a computation.
-/

namespace StyleEngine

variable {ε : Type}

/-- A property of caches that lasts while they are asked and answers are put in. -/
structure MatchCache.Lasting (P : MatchCache → Prop) : Prop where
  get : ∀ {c : MatchCache} (e : ElementKey) (id : SelectorId) (place : Nat),
    P c → P (c.get e id place).2
  set : ∀ {c : MatchCache} (e : ElementKey) (id : SelectorId) (place : Nat) (outcome : Outcome),
    P c → P (c.set e id place outcome)

/-- On two memories with one cache the computation comes to one answer and leaves one cache. If the
cache has the property `P` at the start, it has it at the end. -/
def MatchM.Unread {α : Type} (P : MatchCache → Prop) (x : MatchM α) : Prop :=
  ∀ m m', m.cache = m'.cache → (∀ c ∈ m.cache, P c) → (x.run m).1 = (x.run m').1 ∧
    (x.run m).2.cache = (x.run m').2.cache ∧ ∀ c ∈ (x.run m).2.cache, P c

namespace MatchM

variable {α β : Type} {P : MatchCache → Prop} {t : ElementTree ε}

theorem unread_pure (a : α) : (pure a : MatchM α).Unread P :=
  fun _ _ hcache hm => ⟨rfl, hcache, hm⟩

theorem Unread.bind {x : MatchM α} {f : α → MatchM β} (hx : x.Unread P)
    (hf : ∀ a, (f a).Unread P) : (x >>= f).Unread P := by
  intro m m' hcache hm
  obtain ⟨hanswer, hcache, hm⟩ := hx m m' hcache hm
  rw [run_bind, run_bind, ← hanswer]
  exact hf _ _ _ hcache hm

/-- Notes do not touch the cache. -/
theorem unread_of_tells {x : MatchM α} {a : α} {rs : Readings ε} (h : x.Tells t a rs) :
    x.Unread P := by
  intro m m' hcache hm
  rw [h m, h m']
  exact ⟨rfl, hcache, hm⟩

theorem unread_remembered (hP : MatchCache.Lasting P) (key : ElementKey) (id : Option SelectorId)
    (place : Nat) {find : MatchM Outcome} (hfind : find.Unread P) :
    (remembered key id place find).Unread P := by
  rintro ⟨cache, dependencies⟩ ⟨cache', dependencies'⟩ rfl hm
  cases id with
  | none => exact hfind _ _ rfl hm
  | some i =>
    cases cache with
    | none => exact hfind _ _ rfl hm
    | some cache =>
      have hasked : ∀ c ∈ some (cache.get key i place).2, P c := by
        rintro c ⟨⟩
        exact hP.get key i place (hm cache rfl)
      rw [run_remembered, run_remembered]
      dsimp only
      cases (cache.get key i place).1 with
      | some outcome => exact ⟨rfl, rfl, hasked⟩
      | none =>
        obtain ⟨hanswer, hcache, hm⟩ := hfind ⟨some (cache.get key i place).2, dependencies⟩
          ⟨some (cache.get key i place).2, dependencies'⟩ rfl hasked
        dsimp only
        refine ⟨hanswer, by rw [hanswer, hcache], fun c hc => ?_⟩
        obtain ⟨c', hc', rfl⟩ := Option.map_eq_some_iff.mp hc
        exact hP.set _ _ _ _ (hm c' hc')

theorem unread_firstDecisive {attempt : ε → MatchM Outcome} (h : ∀ a, (attempt a).Unread P)
    (exhausted : Outcome) (l : List ε) : (firstDecisive attempt exhausted l).Unread P := by
  induction l with
  | nil => exact unread_pure exhausted
  | cons a l ih =>
    refine (h a).bind fun outcome => ?_
    split
    · exact ih
    · exact unread_pure outcome

theorem unread_foldlM {f : β → α → MatchM β} (h : ∀ b a, (f b a).Unread P) (l : List α) (b : β) :
    (l.foldlM f b).Unread P := by
  induction l generalizing b with
  | nil => exact unread_pure b
  | cons a l ih =>
    rw [List.foldlM_cons]
    exact (h b a).bind ih

end MatchM

open MatchM

variable {P : MatchCache → Prop} (hP : MatchCache.Lasting P)

include hP

theorem Complex.unread_matchLeft (t : ElementTree ε) (mode : DocumentMode)
    (id : Option SelectorId) (left : List (Combinator × Compound)) (place : Nat) (e : ε) :
    (matchLeft t mode id left place e).Unread P := by
  induction left generalizing place e with
  | nil => exact unread_pure _
  | cons head left ih =>
    obtain ⟨combinator, c⟩ := head
    rw [matchLeft_cons]
    refine (unread_of_tells (combinator.tells_note t e)).bind fun _ => ?_
    refine unread_firstDecisive (fun a => unread_remembered hP _ _ _ ?_) _ _
    refine (unread_of_tells (Compound.tells_test t mode false c a)).bind fun holds => ?_
    cases holds with
    | true => exact ih (place + 1) a
    | false => exact unread_pure _

theorem Complex.unread_matchAt (t : ElementTree ε) (mode : DocumentMode)
    (id : Option SelectorId) (s : Complex) (e : ε) : (s.matchAt t mode id e).Unread P := by
  refine (unread_of_tells (Compound.tells_test t mode true s.subject e)).bind fun holds => ?_
  cases holds with
  | true => exact unread_matchLeft hP t mode id s.left 1 e
  | false => exact unread_pure _

namespace RuleIndex

variable {κ : Type} [BEq κ] [Hashable κ] (digest : Feature → κ)
  (filter : Option (AncestorFilter κ)) (index : RuleIndex)

theorem unread_collectSelector (t : ElementTree ε) (e : ε) (c : Collected) (id : SelectorId) :
    (collectSelector digest filter index t e c id).Unread P := by
  unfold collectSelector
  split
  · exact unread_pure c
  · next rule selector specificity _ =>
    have hmatch : (selector.match? digest t index.mode filter (some id) e).Unread P := by
      unfold Complex.match?
      split
      · exact (Complex.unread_matchAt hP t index.mode (some id) selector e).bind fun outcome =>
          unread_pure _
      · exact unread_pure _
    refine hmatch.bind fun verdict => ?_
    split
    · exact unread_pure _
    · exact unread_pure c

/-- Collecting does not read notes, and keeps what asking and answering keep. -/
theorem unread_collect (t : StyledTree ε) (e : ε) :
    (index.collect digest filter t e).Unread P :=
  (unread_foldlM (unread_collectSelector hP digest filter index t.toElementTree e) _ _).bind
    fun _ => unread_pure _

end RuleIndex

end StyleEngine
