import StyleEngine.Proofs.Tree.Branch

/-!
# A change of children

After children of one element were put in or taken out, the elements that stayed have the ancestors
that they had. Of these only the children of that element may have other siblings; everything else
that is new is below a child that was put in.

## Main definitions

* `StyledTree.Relinked`: two trees that differ in the children of one element.
* `StyledTree.Inserted`: the children that were put in.
* `StyledTree.Stays`: the elements that have the way up that they had.
* `StyledTree.Behind`: the later siblings of an element, with what is below them.

## Main statements

* `Relinked.stays_or_below`: every other element is below a child that was put in.
* `Stays.siblings`: only children of the element have other siblings.
-/

namespace StyleEngine

variable {ε : Type}

namespace StyledTree

/-- The elements directly below an element, in order. -/
def children (t : StyledTree ε) (e : ε) : List ε :=
  (t.branch e).children.map Branch.element

/-- The children of `p` were changed: elements or text were put in or taken out. All other elements
that are in the document before and after have the children that they had. -/
structure Relinked (t t' : StyledTree ε) (root p : ε) : Prop where
  key : t'.key = t.key
  tag : t'.tag = t.tag
  id? : t'.id? = t.id?
  classes : t'.classes = t.classes
  attribute? : t'.attribute? = t.attribute?
  state : t'.state = t.state
  inline? : t'.inline? = t.inline?
  hints? : t'.hints? = t.hints?
  following_root : t'.following root = t.following root
  isEmpty : ∀ {x}, x ∈ (t.branch root).elements → x ∈ (t'.branch root).elements → x ≠ p →
    t'.isEmpty x = t.isEmpty x
  children : ∀ {x}, x ∈ (t.branch root).elements → x ∈ (t'.branch root).elements → x ≠ p →
    t'.children x = t.children x

/-- A child of `p` that was put in. -/
def Inserted (t t' : StyledTree ε) (p c : ε) : Prop :=
  c ∈ t'.children p ∧ c ∉ t.children p

/-- An element that is below the root before and after, on the same way. -/
structure Stays (t t' : StyledTree ε) (root x : ε) : Prop where
  before : x ∈ (t.branch root).elements
  after : x ∈ (t'.branch root).elements
  ancestors : t'.ancestors x = t.ancestors x

/-- A later sibling of `p`, or an element below one. -/
def Behind (t : StyledTree ε) (p x : ε) : Prop :=
  ∃ a ∈ x :: t.ancestors x, p ∈ t.preceding a

variable {t t' : StyledTree ε} {root p x : ε}

/-! ## Children -/

namespace Lawful

variable (ht : t.Lawful)

include ht

theorem mem_elements_iff_children {e : ε} :
    x ∈ (t.branch e).elements ↔ x = e ∨ ∃ c ∈ t.children e, x ∈ (t.branch c).elements := by
  rw [ht.mem_elements_iff]
  refine or_congr Iff.rfl ⟨?_, ?_⟩
  · rintro ⟨c, hc, hx⟩
    exact ⟨c.element, List.mem_map_of_mem hc, hx⟩
  · rintro ⟨_, hc, hx⟩
    obtain ⟨b, hb, rfl⟩ := List.mem_map.mp hc
    exact ⟨b, hb, hx⟩

theorem ancestors_of_mem_children {e : ε} (h : x ∈ t.children e) :
    t.ancestors x = e :: t.ancestors e := by
  obtain ⟨c, hc, rfl⟩ := List.mem_map.mp h
  exact (ht.branch_child hc).2

theorem mem_of_mem_children {e : ε} (h : x ∈ t.children e) : x ∈ (t.branch e).elements :=
  ht.mem_elements_iff_children.mpr (.inr ⟨x, h, ht.mem_elements_self x⟩)

/-- The siblings of a child are the children around it. -/
theorem siblings_of_split {e : ε} {before after : List ε}
    (h : t.children e = before ++ x :: after) :
    t.preceding x = before.reverse ∧ t.following x = after := by
  obtain ⟨cs, cs', hsplit, rfl, hrest⟩ := List.map_eq_append_iff.mp h
  obtain ⟨c, cs', rfl, rfl, rfl⟩ := List.map_eq_cons_iff.mp hrest
  exact ht.siblings_child hsplit

/-- The children of an element can be gone through one generation after the other. -/
theorem induction_children {motive : ε → Prop}
    (step : ∀ e, (∀ c ∈ t.children e, motive c) → motive e) (e : ε) : motive e :=
  ht.induction_branch (fun e ih => step e fun c hc => by
    obtain ⟨b, hb, rfl⟩ := List.mem_map.mp hc
    exact ih b hb) e

end Lawful

namespace Rooted

variable (ht : t.Rooted root)

include ht

theorem exists_mem_children (h : x ∈ (t.branch root).elements) (hne : x ≠ root) :
    ∃ q ∈ (t.branch root).elements, x ∈ t.children q := by
  obtain ⟨q, hq, c, hc, rfl⟩ := ht.exists_child h hne
  exact ⟨q, hq, List.mem_map_of_mem hc⟩

/-- An element below the root is a child of its parent. -/
theorem mem_children_of_parent? {q : ε} (h : x ∈ (t.branch root).elements)
    (hq : t.parent? x = some q) : q ∈ (t.branch root).elements ∧ x ∈ t.children q := by
  have hne : x ≠ root := by
    rintro rfl
    simp [ElementTree.parent?, ht.ancestors_root] at hq
  obtain ⟨q', hmem, hx⟩ := ht.exists_mem_children h hne
  rw [ElementTree.parent?, ht.ancestors_of_mem_children hx, List.head?_cons] at hq
  exact Option.some.inj hq ▸ ⟨hmem, hx⟩

theorem eq_root_of_parent?_eq_none (h : x ∈ (t.branch root).elements)
    (hx : t.parent? x = none) : x = root :=
  (ht.isRoot_iff h).mp (List.isEmpty_iff.mpr (List.head?_eq_none_iff.mp hx))

end Rooted

/-! ## Elements that stay -/

section Stays

variable (ht : t.Rooted root) (ht' : t'.Rooted root)

include ht ht'

theorem stays_root : t.Stays t' root root :=
  ⟨ht.mem_root, ht'.mem_root, ht'.ancestors_root.trans ht.ancestors_root.symm⟩

theorem Stays.ancestor {a : ε} (h : t.Stays t' root x) (ha : a ∈ t.ancestors x) :
    t.Stays t' root a := by
  have ha' : a ∈ t'.ancestors x := h.ancestors ▸ ha
  refine ⟨(ht.mem_of_ancestor h.before (List.mem_cons_of_mem x ha)).1,
    (ht'.mem_of_ancestor h.after (List.mem_cons_of_mem x ha')).1, ?_⟩
  obtain ⟨below, above, hsplit⟩ := List.append_of_mem ha
  rw [ht.ancestors_of_split hsplit, ht'.ancestors_of_split (h.ancestors.trans hsplit)]

theorem Stays.child {c : ε} (h : t.Stays t' root x) (hc : c ∈ t.children x)
    (hc' : c ∈ t'.children x) : t.Stays t' root c where
  before := ht.mem_trans h.before (ht.mem_of_mem_children hc)
  after := ht'.mem_trans h.after (ht'.mem_of_mem_children hc')
  ancestors := by
    rw [ht.ancestors_of_mem_children hc, ht'.ancestors_of_mem_children hc', h.ancestors]

omit ht ht' in
theorem Stays.parent? (h : t.Stays t' root x) : t'.parent? x = t.parent? x := by
  rw [ElementTree.parent?, ElementTree.parent?, h.ancestors]

variable (hedit : t.Relinked t' root p)

include hedit

omit ht ht' in
theorem Stays.children (h : t.Stays t' root x) (hne : x ≠ p) : t'.children x = t.children x :=
  hedit.children h.before h.after hne

/-- The element whose children were changed stays. -/
theorem Relinked.stays (hp : p ∈ (t.branch root).elements) : t.Stays t' root p := by
  have below (e : ε) (he : t.Stays t' root e) (hp : p ∈ (t.branch e).elements) :
      t.Stays t' root p := by
    induction e using ht.induction_children with
    | step e ih =>
      by_cases hep : e = p
      · exact hep ▸ he
      · rcases ht.mem_elements_iff_children.mp hp with rfl | ⟨c, hc, hp⟩
        · exact he
        · exact ih c hc (he.child ht ht' hc (he.children hedit hep ▸ hc)) hp
  exact below root (stays_root ht ht') hp

/-- An element of the document either stays or is below a child that was put in. -/
theorem Relinked.stays_or_below (h : x ∈ (t'.branch root).elements) :
    t.Stays t' root x ∨ ∃ c, t.Inserted t' p c ∧ x ∈ (t'.branch c).elements := by
  have below (e : ε) (he : t.Stays t' root e) (h : x ∈ (t'.branch e).elements) :
      t.Stays t' root x ∨ ∃ c, t.Inserted t' p c ∧ x ∈ (t'.branch c).elements := by
    induction e using ht'.induction_children with
    | step e ih =>
      rcases ht'.mem_elements_iff_children.mp h with rfl | ⟨c, hc, hx⟩
      · exact .inl he
      · by_cases hold : c ∈ t.children e
        · exact ih c hc (he.child ht ht' hold hc) hx
        · obtain rfl : e = p := Classical.byContradiction fun hep =>
            hold (he.children hedit hep ▸ hc)
          exact .inr ⟨c, ⟨hc, hold⟩, hx⟩
  exact below root (stays_root ht ht') h

/-- What is outside the branch of the element whose children were changed stays, and was outside. -/
theorem Relinked.stays_of_not_mem_branch (h : x ∈ (t'.branch root).elements)
    (hout : x ∉ (t'.branch p).elements) :
    t.Stays t' root x ∧ x ∉ (t.branch p).elements := by
  rcases hedit.stays_or_below ht ht' h with hx | ⟨c, hc, hx⟩
  · refine ⟨hx, fun hin => hout ?_⟩
    have hp : p ∈ x :: t.ancestors x :=
      (ht.cons_ancestors_suffix_of_mem hin).subset List.mem_cons_self
    exact (ht'.mem_of_ancestor h (hx.ancestors.symm ▸ hp)).2
  · exact absurd (ht'.mem_trans (ht'.mem_of_mem_children hc.1) hx) hout

/-- An element that stays is the root, or a child in the same row as before, unless its parent is
the one whose children were changed. -/
theorem Stays.eq_root_or_exists_row (h : t.Stays t' root x) (hp : t.parent? x ≠ some p) :
    x = root ∨ ∃ q before after, t.Stays t' root q ∧
      t.children q = before ++ x :: after ∧ t'.children q = before ++ x :: after := by
  cases hparent : t.parent? x with
  | none => exact .inl (ht.eq_root_of_parent?_eq_none h.before hparent)
  | some q =>
    have hne : q ≠ p := fun heq => hp (hparent.trans (congrArg some heq))
    have hq : t.Stays t' root q := h.ancestor ht ht' (List.mem_of_head? hparent)
    obtain ⟨before, after, hrow⟩ :=
      List.append_of_mem (ht.mem_children_of_parent? h.before hparent).2
    exact .inr ⟨q, before, after, hq, hrow, (hq.children hedit hne).trans hrow⟩

/-- Elements that stay have the siblings that they had, unless their parent is the one whose
children were changed. -/
theorem Stays.siblings (h : t.Stays t' root x) (hp : t.parent? x ≠ some p) :
    t'.preceding x = t.preceding x ∧ t'.following x = t.following x := by
  rcases h.eq_root_or_exists_row ht ht' hedit hp with rfl | ⟨q, before, after, -, hrow, hrow'⟩
  · exact ⟨ht'.preceding_root.trans ht.preceding_root.symm, hedit.following_root⟩
  · obtain ⟨hpreceding, hfollowing⟩ := ht.siblings_of_split hrow
    obtain ⟨hpreceding', hfollowing'⟩ := ht'.siblings_of_split hrow'
    exact ⟨hpreceding'.trans hpreceding.symm, hfollowing'.trans hfollowing.symm⟩

/-- Their siblings stay too. -/
theorem Stays.preceding {y : ε} (h : t.Stays t' root x) (hp : t.parent? x ≠ some p)
    (hy : y ∈ t.preceding x) : t.Stays t' root y := by
  rcases h.eq_root_or_exists_row ht ht' hedit hp with rfl | ⟨q, before, after, hq, hrow, hrow'⟩
  · simp [ht.preceding_root] at hy
  · rw [(ht.siblings_of_split hrow).1, List.mem_reverse] at hy
    exact hq.child ht ht' (hrow ▸ List.mem_append_left _ hy) (hrow' ▸ List.mem_append_left _ hy)

/-- What is outside the branch of the element whose children were changed, and not behind the
element, looked at nothing of it. -/
theorem Relinked.not_reaches (h : x ∈ (t'.branch root).elements)
    (hout : x ∉ (t'.branch p).elements) (hbehind : ¬t'.Behind p x) {a : ε}
    (ha : a ∈ x :: t'.ancestors x) : ¬t.Reaches a p := by
  intro hreaches
  obtain ⟨hx, hout⟩ := hedit.stays_of_not_mem_branch ht ht' h hout
  rw [hx.ancestors] at ha
  obtain ⟨b, hb, hp⟩ := ht.reaches_trans ⟨a, ha, List.mem_cons_self⟩ hreaches
  rcases List.mem_cons.mp hp with rfl | hp
  · exact hout (ht.mem_of_ancestor hx.before hb).2
  · have hstays : t.Stays t' root b := by
      rcases List.mem_cons.mp hb with rfl | hb
      · exact hx
      · exact hx.ancestor ht ht' hb
    have hparent : t.parent? b ≠ some p := by
      intro hparent
      have habove := ht.ancestors_of_mem_preceding hp
      exact ht.not_mem_ancestors_self p (habove ▸ List.mem_of_head? hparent)
    refine hbehind ⟨b, hx.ancestors ▸ hb, ?_⟩
    rwa [(hstays.siblings ht ht' hedit hparent).1]

end Stays

end StyledTree

/-! ## A family that grows -/

/-- The elements of a family in which a grandchild may be born to the elder child. -/
inductive Kin
  | parent
  | elder
  | younger
  | grandchild
deriving DecidableEq, Repr

namespace Kin

def key : Kin → ElementKey
  | parent => 0
  | elder => 1
  | younger => 2
  | grandchild => 3

def elderBranch (born : Bool) : Branch Kin :=
  .node elder (if born then [.node grandchild []] else [])

def branch (born : Bool) : Kin → Branch Kin
  | parent => .node parent [elderBranch born, .node younger []]
  | elder => elderBranch born
  | younger => .node younger []
  | grandchild => .node grandchild []

/-- The family before and after the grandchild is born. -/
def tree (born : Bool) : StyledTree Kin where
  key := key
  ancestors
    | parent => []
    | elder | younger => [parent]
    | grandchild => if born then [elder, parent] else []
  preceding
    | younger => [elder]
    | _ => []
  following
    | elder => [younger]
    | _ => []
  tag _ := "li"
  id? _ := none
  classes _ := []
  attribute? _ _ := none
  state _ := .none
  isEmpty
    | parent => false
    | elder => !born
    | younger | grandchild => true
  inline? _ := none
  hints? _ := none
  isConnected e := born || e ≠ grandchild
  branch := branch born

theorem rooted_tree (born : Bool) : (tree born).Rooted parent where
  ancestors_eq := by
    intro e p rest h
    cases e <;> cases born <;> cases h <;> rfl
  preceding_eq := by
    intro e s rest h
    cases e <;> cases h
    exact ⟨rfl, rfl, rfl⟩
  following_eq := by
    intro e s rest h
    cases e <;> cases h
    exact ⟨rfl, rfl, rfl⟩
  element_branch e := by cases e <;> rfl
  branch_child := by
    intro e c hc
    cases e with
    | parent =>
      rcases List.mem_cons.mp hc with rfl | hc
      · exact ⟨rfl, rfl⟩
      · rw [List.mem_singleton.mp hc]
        exact ⟨rfl, rfl⟩
    | elder =>
      cases born with
      | true =>
        rw [List.mem_singleton.mp hc]
        exact ⟨rfl, rfl⟩
      | false => cases hc
    | younger | grandchild => cases hc
  siblings_child := by
    intro e before c after h
    cases e with
    | parent =>
      rcases List.cons_eq_append_iff.mp h with ⟨rfl, hhead⟩ | ⟨before, rfl, htail⟩
      · cases hhead
        exact ⟨rfl, rfl⟩
      · rcases List.singleton_eq_append_iff.mp htail with ⟨rfl, hhead⟩ | ⟨-, hnil⟩
        · cases hhead
          exact ⟨rfl, rfl⟩
        · cases hnil
    | elder =>
      cases born with
      | true =>
        rcases List.singleton_eq_append_iff.mp h with ⟨rfl, hhead⟩ | ⟨-, hnil⟩
        · cases hhead
          exact ⟨rfl, rfl⟩
        · cases hnil
      | false => cases before <;> cases h
    | younger | grandchild => cases before <;> cases h
  ancestors_root := rfl
  preceding_root := rfl
  key_injective := by
    intro a b _ _ h
    have hkey : key a = key b := h
    cases a <;> cases b <;> simp [key] at hkey ⊢
  connected := by
    intro a ha
    cases born with
    | true => rfl
    | false =>
      cases a with
      | grandchild =>
        simp [tree, branch, elderBranch, Branch.elements, Branch.elementsOfAll] at ha
      | _ => rfl

theorem relinked_tree : (tree false).Relinked (tree true) parent elder where
  key := rfl
  tag := rfl
  id? := rfl
  classes := rfl
  attribute? := rfl
  state := rfl
  inline? := rfl
  hints? := rfl
  following_root := rfl
  isEmpty := by
    intro x _ _ hne
    cases x <;> first | rfl | exact absurd rfl hne
  children := by
    intro x _ _ hne
    cases x <;> first | rfl | exact absurd rfl hne

theorem inserted_iff {c : Kin} :
    c ∈ [grandchild] ↔ (tree false).Inserted (tree true) elder c := by
  simp [StyledTree.Inserted, StyledTree.children, tree, branch, elderBranch, Branch.children,
    Branch.element]

end Kin

end StyleEngine
