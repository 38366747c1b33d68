/-!
# Dynamic state of an element

User action and form state reach the matcher as ten flags.
-/

namespace StyleEngine

inductive StateFlag
  | hover
  | active
  | focus
  | focusable
  | link
  | visited
  | checked
  | disabled
  | enabled
  | target
deriving DecidableEq, Repr

namespace StateFlag

/-- Every flag, lowest bit first. -/
def all : List StateFlag :=
  [hover, active, focus, focusable, link, visited, checked, disabled, enabled, target]

theorem mem_all (f : StateFlag) : f ∈ all := by
  cases f <;> decide

end StateFlag

/-- The flags of one element. -/
structure ElementState where
  hover : Bool
  active : Bool
  focus : Bool
  /-- The element can take focus. -/
  focusable : Bool
  link : Bool
  visited : Bool
  checked : Bool
  disabled : Bool
  enabled : Bool
  target : Bool
deriving DecidableEq, Repr

namespace ElementState

/-- Whether a flag is set. -/
def has (s : ElementState) : StateFlag → Bool
  | .hover => s.hover
  | .active => s.active
  | .focus => s.focus
  | .focusable => s.focusable
  | .link => s.link
  | .visited => s.visited
  | .checked => s.checked
  | .disabled => s.disabled
  | .enabled => s.enabled
  | .target => s.target

/-- The state with exactly the given flags. -/
def ofFlags (fs : List StateFlag) : ElementState where
  hover := fs.contains .hover
  active := fs.contains .active
  focus := fs.contains .focus
  focusable := fs.contains .focusable
  link := fs.contains .link
  visited := fs.contains .visited
  checked := fs.contains .checked
  disabled := fs.contains .disabled
  enabled := fs.contains .enabled
  target := fs.contains .target

/-- No flag. -/
def none : ElementState := ofFlags []

/-- The flags that are set, lowest bit first. -/
def flags (s : ElementState) : List StateFlag :=
  StateFlag.all.filter s.has

/-- The flags as a number; the flag at place `i` of `StateFlag.all` is worth `2 ^ i`. -/
def bits (s : ElementState) : Nat :=
  StateFlag.all.foldr (fun f n => (s.has f).toNat + 2 * n) 0

@[simp] theorem has_ofFlags (fs : List StateFlag) (f : StateFlag) :
    (ofFlags fs).has f = fs.contains f := by
  cases f <;> rfl

end ElementState

end StyleEngine
