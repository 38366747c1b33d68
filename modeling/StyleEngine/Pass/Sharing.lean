import StyleEngine.Element.Styled
import StyleEngine.Matching.Cache

/-!
# Alike siblings

Two siblings that agree in all that matching and the cascade read of them, their place among the
siblings apart, get equal styles, and the second takes over the groups of the first. Alike siblings
are looked for among the last few that were styled.

## Main definitions

* `Signature`: what alike siblings agree in.
* `SiblingHistory`: the last siblings, most recent first.
-/

namespace StyleEngine

/-- What siblings have to agree in to share their styles. -/
structure Signature where
  /-- The tag in lower case. -/
  tag : String
  id : Option String
  /-- The classes in sorted order. -/
  classes : List String
  state : ElementState
  inline : Option DeclarationBlock
  hints : Option DeclarationBlock
  /-- The selectors that matched. -/
  matched : List SelectorId
deriving BEq

/-- The signature of an element for which the selectors `matched` were found. -/
def Signature.ofElement {ε : Type} (t : StyledTree ε) (e : ε) (matched : List SelectorId) :
    Signature where
  tag := Text.foldCase (t.tag e)
  id := t.id? e
  classes := (t.classes e).mergeSort fun a b => a ≤ b
  state := t.state e
  inline := t.inline? e
  hints := t.hints? e
  matched := matched

/-- The last siblings that were styled, at most `limit` of them, most recent first. -/
structure SiblingHistory where
  limit : Nat
  entries : List (ElementKey × Signature)

namespace SiblingHistory

/-- A history of nothing. A styler that reserves room for `limit` entries at this point comes to an
end where there is no such room. Running out of memory is left out of the model, so every limit will
do here. -/
def empty (limit : Nat) : SiblingHistory := ⟨limit, []⟩

/-- The most recent sibling with an equal signature. -/
def find? (h : SiblingHistory) (s : Signature) : Option ElementKey :=
  (h.entries.find? fun entry => entry.2 == s).map Prod.fst

/-- Puts a sibling in front. A history at its limit lets go of the oldest before that, and a history
with limit zero stays as it is. -/
def remember (h : SiblingHistory) (key : ElementKey) (s : Signature) : SiblingHistory :=
  if h.limit = 0 then h
  else
    let kept := if h.entries.length = h.limit then h.entries.dropLast else h.entries
    { h with entries := (key, s) :: kept }

def size (h : SiblingHistory) : Nat := h.entries.length

variable {h : SiblingHistory} {key : ElementKey} {s : Signature}

@[simp] theorem limit_remember : (h.remember key s).limit = h.limit := by
  unfold remember
  split <;> rfl

/-- What a history remembers is new, or was there before. -/
theorem mem_remember {entry : ElementKey × Signature} (hmem : entry ∈ (h.remember key s).entries) :
    entry = (key, s) ∨ entry ∈ h.entries := by
  unfold remember at hmem
  split at hmem
  · exact .inr hmem
  · refine (List.mem_cons.mp hmem).imp_right fun hkept => ?_
    split at hkept
    · exact (List.dropLast_sublist _).mem hkept
    · exact hkept

end SiblingHistory

end StyleEngine
