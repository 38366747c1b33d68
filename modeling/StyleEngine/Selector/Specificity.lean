import StyleEngine.Selector.Basic

/-!
# Specificity

Three counters weigh a selector: ids; classes, attributes and pseudo-classes; types and
pseudo-elements. A counter stops at the largest 16-bit number, so no number of parts of one kind
reaches the next.
-/

namespace StyleEngine

/-- Counts of ids, of classes with their equals, and of types with theirs. -/
structure Specificity where
  ids : UInt16
  classes : UInt16
  types : UInt16
deriving DecidableEq, Repr

namespace Specificity

def zero : Specificity := ⟨0, 0, 0⟩

/-- The sum of two 16-bit counters, held at the largest one. -/
def saturatingSum (a b : UInt16) : UInt16 :=
  UInt16.ofNat (min 65535 (a.toNat + b.toNat))

/-- The sum, counter by counter. -/
def add (a b : Specificity) : Specificity :=
  ⟨saturatingSum a.ids b.ids, saturatingSum a.classes b.classes, saturatingSum a.types b.types⟩

instance : Add Specificity := ⟨add⟩

/-- One number that is ordered as the three counters are. -/
def packed (s : Specificity) : Nat :=
  s.ids.toNat * UInt32.size + s.classes.toNat * UInt16.size + s.types.toNat

/-- The counters are compared from left to right. -/
def compare (a b : Specificity) : Ordering :=
  (Ord.compare a.ids b.ids).then
    ((Ord.compare a.classes b.classes).then (Ord.compare a.types b.types))

instance : Ord Specificity := ⟨compare⟩
instance : LT Specificity := ltOfOrd
instance : LE Specificity := leOfOrd

end Specificity

mutual
/-- A negation weighs as much as its argument. -/
def Simple.specificity (s : Simple) : Specificity :=
  match s with
  | .universal => .zero
  | .id _ => ⟨1, 0, 0⟩
  | .className _ | .attribute _ | .pseudoClass _ => ⟨0, 1, 0⟩
  | .tag _ | .pseudoElement _ => ⟨0, 0, 1⟩
  | .negation inner => Compound.specificityFrom .zero inner
/-- The weight of `c` on top of `total`. -/
def Compound.specificityFrom (total : Specificity) (c : List Simple) : Specificity :=
  match c with
  | [] => total
  | s :: rest => Compound.specificityFrom (total + s.specificity) rest
end

def Compound.specificity (c : Compound) : Specificity :=
  specificityFrom .zero c

/-- The sum over all compounds, from the leftmost to the subject. -/
def Complex.specificity (s : Complex) : Specificity :=
  s.compounds.foldr (fun c total => total + Compound.specificity c) .zero

end StyleEngine
