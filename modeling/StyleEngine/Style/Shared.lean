/-!
# Shared groups

Styles hold their properties in groups, and many styles hold one and the same group. A handle
carries the identity of its group beside the contents. Copying a handle keeps the identity; writing
through it gives it a new one, so no other holder sees the change.

The identity is a number, the *stamp* of the operation that made the group. An operation that may
write takes its stamp as an argument; a stamp is used for one operation only.
-/

namespace StyleEngine

/-- The number of an operation that may make groups. -/
abbrev Stamp := Nat

/-- A handle to a group: an identity and the contents. -/
structure Shared (α : Type) where
  identity : Stamp
  value : α

namespace Shared

variable {α : Type}

/-- Whether two handles are to one group. -/
def same (a b : Shared α) : Bool :=
  a.identity == b.identity

/-- Equality of contents, which is not looked at for handles to one group. -/
instance [BEq α] : BEq (Shared α) where
  beq a b := a.same b || a.value == b.value

/-- A group of its own with new contents. -/
def write (stamp : Stamp) (value : α) : Shared α :=
  ⟨stamp, value⟩

/-- The other group, if it is a different one with equal contents. -/
def adopt [BEq α] (mine theirs : Shared α) : Shared α :=
  if !mine.same theirs && mine.value == theirs.value then theirs else mine

@[simp] theorem same_self (a : Shared α) : a.same a = true := by
  simp [same]

end Shared

/-! ## Named handles -/

/-- Handles under names, in the order of the names, and the next stamp. -/
structure HandlePool (α : Type) where
  slots : List (String × Shared α)
  next : Stamp

namespace HandlePool

variable {α : Type}

def empty : HandlePool α := ⟨[], 0⟩

def find? (p : HandlePool α) (name : String) : Option (Shared α) :=
  (p.slots.find? (·.1 == name)).map Prod.snd

/-- Puts a handle under a name, in place of what was there. -/
def put (p : HandlePool α) (name : String) (handle : Shared α) : HandlePool α :=
  { p with slots := insertSorted p.slots }
where
  insertSorted : List (String × Shared α) → List (String × Shared α)
    | [] => [(name, handle)]
    | slot :: rest =>
      if name = slot.1 then (name, handle) :: rest
      else if name < slot.1 then (name, handle) :: slot :: rest
      else slot :: insertSorted rest

/-- Makes a group of its own under a name. -/
def create (p : HandlePool α) (name : String) (value : α) : HandlePool α :=
  { p.put name (.write p.next value) with next := p.next + 1 }

/-- Puts a second handle to the group of `source` under a name. -/
def copy? (p : HandlePool α) (name source : String) : Option (HandlePool α) :=
  (p.find? source).map (p.put name)

/-- Writes through the handle under a name. -/
def write? (p : HandlePool α) (name : String) (value : α) : Option (HandlePool α) :=
  (p.find? name).map fun _ => p.create name value

/-- Removes the handle under a name, if there is one. -/
def drop (p : HandlePool α) (name : String) : HandlePool α :=
  { p with slots := p.slots.filter (·.1 != name) }

/-- The names of the handles to the group of `handle`. -/
def namesOfSame (p : HandlePool α) (handle : Shared α) : List String :=
  (p.slots.filter (·.2.same handle)).map Prod.fst

/-- The names of the handles equal to `handle`. -/
def namesOfEqual [BEq α] (p : HandlePool α) (handle : Shared α) : List String :=
  (p.slots.filter (handle == ·.2)).map Prod.fst

/-- Whether more than one handle of the pool is to the group of `handle`. -/
def isShared (p : HandlePool α) (handle : Shared α) : Bool :=
  1 < (p.namesOfSame handle).length

end HandlePool

end StyleEngine
