import Std.Data.HashMap
import StyleEngine.Element.Tree
import StyleEngine.Matching.Outcome

/-!
# Answers remembered for a pass

The answer for a compound that is not the subject, and all that is left of it, is kept under the
element, the selector and the place of the compound. Each answer carries the number of the pass in
which it was found, and is read in that pass only.
-/

namespace StyleEngine

/-- The place of a selector in an index: its rule, and its place in the list of the rule, which is
counted modulo `2 ^ 16`. -/
structure SelectorId where
  rule : UInt32
  position : UInt16
deriving DecidableEq, Hashable, Repr

namespace SelectorId

/-- Ids are ordered by rule, then by position. -/
def compare (a b : SelectorId) : Ordering :=
  (Ord.compare a.rule b.rule).then (Ord.compare a.position b.position)

instance : Ord SelectorId := ⟨compare⟩
instance : LT SelectorId := ltOfOrd
instance : LE SelectorId := leOfOrd

end SelectorId

namespace MatchCache

/-- What an answer is kept under; the compound is counted from the subject. -/
structure Key where
  element : ElementKey
  selector : SelectorId
  compound : UInt16
deriving DecidableEq, Hashable, Repr

/-- More answers than this are not carried into the next pass. -/
def maxRetained : Nat := 65536

end MatchCache

structure MatchCache where
  store : Std.HashMap MatchCache.Key (UInt32 × Outcome)
  /-- The number of the current pass. -/
  epoch : UInt32
  hits : Nat
  misses : Nat

namespace MatchCache

def empty : MatchCache := ⟨∅, 0, 0, 0⟩

/-- Starts a new pass. The answers of earlier passes can no longer be read; they are dropped when
the numbers of passes start over or when there are too many. -/
def beginPass (c : MatchCache) : MatchCache :=
  let epoch := c.epoch + 1
  { c with
    epoch := epoch
    store := if epoch == 0 || maxRetained < c.store.size then ∅ else c.store }

/-- The key of a compound; compounds too far from the subject have none. -/
def key? (e : ElementKey) (id : SelectorId) (compound : Nat) : Option Key :=
  if compound < UInt16.size then some ⟨e, id, UInt16.ofNat compound⟩ else none

/-- The answer found for a key in the current pass. -/
def current? (c : MatchCache) (k : Key) : Option Outcome :=
  match c.store[k]? with
  | some (epoch, outcome) => if epoch == c.epoch then some outcome else none
  | none => none

/-- Keeps an answer for the rest of the pass. -/
def set (c : MatchCache) (e : ElementKey) (id : SelectorId) (compound : Nat) (outcome : Outcome) :
    MatchCache :=
  match key? e id compound with
  | some k => { c with store := c.store.insert k (c.epoch, outcome) }
  | none => c

/-- The answer of the current pass, and the cache with the question counted. -/
def get (c : MatchCache) (e : ElementKey) (id : SelectorId) (compound : Nat) :
    Option Outcome × MatchCache :=
  match key? e id compound with
  | none => (none, c)
  | some k =>
    match c.current? k with
    | some outcome => (some outcome, { c with hits := c.hits + 1 })
    | none => (none, { c with misses := c.misses + 1 })

def clear (c : MatchCache) : MatchCache :=
  { c with store := ∅ }

end MatchCache

end StyleEngine
