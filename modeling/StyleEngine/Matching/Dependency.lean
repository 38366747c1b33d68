import Std.Data.HashMap
import StyleEngine.Element.Tree

/-!
# What a match has read

While it matches, the engine notes for each element which of its volatile inputs an answer hung on.
After a change of state or structure the notes tell how much has to be matched again.
-/

namespace StyleEngine

/-- The kinds of volatile input. Structure is noted at the parent. -/
inductive DependencyKind
  /-- The order of the children, read from the front. -/
  | structural
  /-- The order of the children, read from the back, and whether there are any. -/
  | backwardsStructural
  | hover
  | active
  | focus
  /-- Any other flag of the state. -/
  | otherState
deriving DecidableEq, Repr

namespace DependencyKind

/-- Every kind, lowest bit first. -/
def all : List DependencyKind :=
  [structural, backwardsStructural, hover, active, focus, otherState]

end DependencyKind

/-- The kind under which a flag is noted. -/
def StateFlag.kind : StateFlag → DependencyKind
  | .hover => .hover
  | .active => .active
  | .focus => .focus
  | _ => .otherState

/-- A set of kinds. -/
structure DependencyKinds where
  structural : Bool
  backwardsStructural : Bool
  hover : Bool
  active : Bool
  focus : Bool
  otherState : Bool
deriving DecidableEq, Repr

namespace DependencyKinds

def has (s : DependencyKinds) : DependencyKind → Bool
  | .structural => s.structural
  | .backwardsStructural => s.backwardsStructural
  | .hover => s.hover
  | .active => s.active
  | .focus => s.focus
  | .otherState => s.otherState

def ofKinds (ks : List DependencyKind) : DependencyKinds where
  structural := ks.contains .structural
  backwardsStructural := ks.contains .backwardsStructural
  hover := ks.contains .hover
  active := ks.contains .active
  focus := ks.contains .focus
  otherState := ks.contains .otherState

def none : DependencyKinds := ofKinds []

def union (s t : DependencyKinds) : DependencyKinds where
  structural := s.structural || t.structural
  backwardsStructural := s.backwardsStructural || t.backwardsStructural
  hover := s.hover || t.hover
  active := s.active || t.active
  focus := s.focus || t.focus
  otherState := s.otherState || t.otherState

/-- The kinds of a set, lowest bit first. -/
def kinds (s : DependencyKinds) : List DependencyKind :=
  DependencyKind.all.filter s.has

/-- Whether two sets have a kind in common. -/
def meets (s t : DependencyKinds) : Bool :=
  DependencyKind.all.any fun k => s.has k && t.has k

def isEmpty (s : DependencyKinds) : Bool :=
  s == none

/-- The set as a number; the kind at place `i` of `DependencyKind.all` is worth `2 ^ i`. -/
def bits (s : DependencyKinds) : Nat :=
  DependencyKind.all.foldr (fun k n => (s.has k).toNat + 2 * n) 0

@[simp] theorem has_ofKinds (ks : List DependencyKind) (k : DependencyKind) :
    (ofKinds ks).has k = ks.contains k := by
  cases k <;> rfl

@[simp] theorem has_union (s t : DependencyKinds) (k : DependencyKind) :
    (s.union t).has k = (s.has k || t.has k) := by
  cases k <;> rfl

end DependencyKinds

/-- For each element the kinds noted for it. -/
structure DependencyTable where
  entries : Std.HashMap ElementKey DependencyKinds

namespace DependencyTable

def empty : DependencyTable := ⟨∅⟩

/-- All kinds noted for an element. -/
def kinds (t : DependencyTable) (e : ElementKey) : DependencyKinds :=
  t.entries.getD e .none

/-- Notes that an answer hung on `ks` of the element. -/
def record (t : DependencyTable) (e : ElementKey) (ks : DependencyKinds) : DependencyTable :=
  if ks.isEmpty then t else ⟨t.entries.insert e ((t.kinds e).union ks)⟩

/-- Whether any of `ks` was noted for the element. -/
def dependsOn (t : DependencyTable) (e : ElementKey) (ks : DependencyKinds) : Bool :=
  (t.kinds e).meets ks

/-- Drops the notes of an element that is matched again or gone. -/
def forget (t : DependencyTable) (e : ElementKey) : DependencyTable :=
  ⟨t.entries.erase e⟩

/-- The number of elements with notes. -/
def size (t : DependencyTable) : Nat :=
  t.entries.size

end DependencyTable

end StyleEngine
