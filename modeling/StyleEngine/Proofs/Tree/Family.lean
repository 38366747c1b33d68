import StyleEngine.Proofs.Tree.Branch

/-!
# A family of three

The smallest tree in which every combinator relates something: an element with two children. Its
elements have a tag each, and states that can be chosen.
-/

namespace StyleEngine

/-- The elements of the family. -/
inductive Relative
  | parent
  | elder
  | younger
deriving DecidableEq, Repr

namespace Relative

def tag : Relative → String
  | parent => "ul"
  | elder | younger => "li"

def key : Relative → ElementKey
  | parent => 0
  | elder => 1
  | younger => 2

def branch : Relative → Branch Relative
  | parent => .node parent [.node elder [], .node younger []]
  | elder => .node elder []
  | younger => .node younger []

/-- The family as a document, in given states. -/
def tree (state : Relative → ElementState) : StyledTree Relative where
  key := key
  ancestors
    | parent => []
    | elder | younger => [parent]
  preceding
    | parent | elder => []
    | younger => [elder]
  following
    | parent | younger => []
    | elder => [younger]
  tag := tag
  id? _ := none
  classes _ := []
  attribute? _ _ := none
  state := state
  isEmpty e := e ≠ parent
  inline? _ := none
  hints? _ := none
  isConnected _ := true
  branch := branch

theorem lawful_tree (state : Relative → ElementState) : (tree state).Lawful where
  ancestors_eq := by
    intro e p rest h
    cases e <;> cases h <;> rfl
  preceding_eq := by
    intro e s rest h
    cases e <;> cases h
    exact ⟨rfl, rfl, rfl⟩
  following_eq := by
    intro e s rest h
    cases e <;> cases h
    exact ⟨rfl, rfl, rfl⟩
  element_branch e := by cases e <;> rfl
  branch_child := by
    intro e c hc
    cases e with
    | parent =>
      rcases List.mem_cons.mp hc with rfl | hc
      · exact ⟨rfl, rfl⟩
      · rcases List.mem_cons.mp hc with rfl | hc
        · exact ⟨rfl, rfl⟩
        · cases hc
    | elder | younger => cases hc
  siblings_child := by
    intro e before c after h
    cases e with
    | parent =>
      rcases List.cons_eq_append_iff.mp h with ⟨rfl, hhead⟩ | ⟨before, rfl, htail⟩
      · cases hhead
        exact ⟨rfl, rfl⟩
      · rcases List.singleton_eq_append_iff.mp htail with ⟨rfl, hhead⟩ | ⟨-, hnil⟩
        · cases hhead
          exact ⟨rfl, rfl⟩
        · cases hnil
    | elder | younger => cases before <;> cases h

theorem keysDistinct_tree (state : Relative → ElementState) : (tree state).KeysDistinct := by
  intro a b h
  have hkey : key a = key b := h
  cases a <;> cases b <;> simp [key] at hkey ⊢

theorem rooted_tree (state : Relative → ElementState) : (tree state).Rooted parent where
  lawful := lawful_tree state
  ancestors_root := rfl
  preceding_root := rfl
  key_injective _ _ h := keysDistinct_tree state h
  connected _ := rfl

end Relative

end StyleEngine
