import StyleEngine.Proofs.Matching.Change
import StyleEngine.Proofs.Matching.Memory
import StyleEngine.Proofs.Tree.Family

/-!
# Whether notes are complete

The notes of a match are there to tell which changes of state it has to be made again for: a flag
whose kind is not noted for its element may change. This holds in standards mode. In quirks mode a
bare user action also asks whether its element reacts, which is not noted, so there the elements
with a user action noted have to react as before, unless the selector has no bare user action.

## Main definitions

* `DependencyTable.Misses`: a change of state that no note speaks of.
* `DependencyTable.KeepsReacting`: a change after which noted user actions find elements that react
  as before.

## Main statements

* `Complex.match?_withState`: after such a change a match answers the same and notes the same.
* `Complex.match?_withState_hover`: in quirks mode it is not enough that no note speaks of a change.
-/

namespace StyleEngine

variable {ε κ : Type}

namespace DependencyTable

/-- Flags change only whose kind is not noted for their element. -/
def Misses (table : DependencyTable) (t : ElementTree ε) (state : ε → ElementState) : Prop :=
  ∀ (x : ε) (f : StateFlag), (state x).has f ≠ (t.state x).has f →
    (table.kinds (t.key x)).has f.kind = false

/-- Elements for which a user action is noted react as before. -/
def KeepsReacting (table : DependencyTable) (t : ElementTree ε) (state : ε → ElementState) :
    Prop :=
  ∀ x : ε, (table.kinds (t.key x)).has .hover = true ∨ (table.kinds (t.key x)).has .active = true →
    (state x).reacts = (t.state x).reacts

variable {table : DependencyTable} {t : ElementTree ε} {state : ε → ElementState}

/-- What is noted has not changed. -/
theorem Misses.unread (h : table.Misses t state) {r : ε × List DependencyKind}
    (hr : table.Has t [r]) : t.Unread state r := by
  intro f hf
  by_contra hne
  have hnoted := hr r List.mem_cons_self f.kind hf
  rw [h r.1 f hne] at hnoted
  cases hnoted

/-- The test of a bare user action notes it, so its element reacts as before. -/
theorem KeepsReacting.reacts (h : table.KeepsReacting t state) {p : PseudoClass} {c : Compound}
    {e : ε} (hp : p.isBare c = true) (hr : ∀ r ∈ p.readings t e, table.Has t [r]) :
    (state e).reacts = (t.state e).reacts := by
  have noted (kind : DependencyKind) (hr : table.Has t [(e, [kind])]) :
      (table.kinds (t.key e)).has kind = true :=
    hr (e, [kind]) List.mem_cons_self kind List.mem_cons_self
  cases p with
  | hover => exact h e (.inl (noted .hover (hr _ List.mem_cons_self)))
  | active => exact h e (.inr (noted .active (hr _ List.mem_cons_self)))
  | _ => cases hp

/-- All that stands in a table with one note. -/
theorem has_kinds_record_empty (key key' : ElementKey) (kinds : List DependencyKind)
    (kind : DependencyKind) :
    ((empty.record key (.ofKinds kinds)).kinds key').has kind =
      (key == key' && kinds.contains kind) := by
  have hempty : (empty.kinds key').has kind = false := by
    simp [DependencyTable.kinds, empty, DependencyKinds.none]
  rw [has_kinds_record, hempty, Bool.false_or, DependencyKinds.has_ofKinds]

theorem misses_record_hover {key : ElementKey}
    (h : ∀ x : ε, t.key x = key → (state x).has .hover = (t.state x).has .hover) :
    (empty.record key (.ofKinds [.hover])).Misses t state := by
  intro x f hf
  rw [has_kinds_record_empty, Bool.and_eq_false_imp, beq_iff_eq]
  intro hkey
  cases f with
  | hover => exact absurd (h x hkey.symm) hf
  | _ => rfl

end DependencyTable

namespace Complex

/-- No user action of the selector stands, in a negation or not, in a compound that has nothing else
to narrow it down. -/
def isNarrowed (s : Complex) : Bool :=
  s.asksOnly fun p c => !p.isBare c

/-- A match from nothing notes all that its answer hangs on: whatever changes besides, it answers
the same and notes the same. In quirks mode this takes elements that react to noted user actions as
before, or a selector without bare user actions. -/
theorem match?_withState [BEq κ] [Hashable κ] (digest : Feature → κ) (t : ElementTree ε)
    (mode : DocumentMode) (id : Option SelectorId) (s : Complex) (e : ε) :
    ∃ verdict table,
      (s.match? digest t mode none id e).run ⟨none, some .empty⟩ =
          (verdict, ⟨none, some table⟩) ∧
        ∀ state, table.Misses t state →
          mode = .standards ∨ s.isNarrowed = true ∨ table.KeepsReacting t state →
          (s.match? digest (t.withState state) mode none id e).run ⟨none, some .empty⟩ =
            (verdict, ⟨none, some table⟩) := by
  refine ⟨_, _, run_match?_of_uncached digest t mode id s e rfl, fun state hmisses hreacts => ?_⟩
  have hnoted : ∀ r ∈ s.readings t mode e,
      (DependencyTable.empty.noteAll t (s.readings t mode e)).Has t [r] := by
    intro r hr r' hr'
    rw [List.mem_singleton.mp hr']
    exact DependencyTable.has_noteAll _ _ r hr
  have hsame : s.outcome (t.withState state) mode e = s.outcome t mode e ∧
      s.readings (t.withState state) mode e = s.readings t mode e := by
    have agree (asked : PseudoClass → Compound → Bool) (hasked : s.asksOnly asked = true)
        (h : mode = .quirks → ∀ {p c x}, asked p c = true → p.isBare c = true →
          (∀ r ∈ p.readings t x,
            (DependencyTable.empty.noteAll t (s.readings t mode e)).Has t [r]) →
          (state x).reacts = (t.state x).reacts) :=
      (t.agrees_withState state (fun h => hmisses.unread h) h).complex trivial hasked hnoted
    -- In each of the cases there are tests that do agree, and the selector has no others.
    rcases hreacts with rfl | hnarrowed | hkeeps
    · exact agree PseudoClass.any s.asksOnly_any nofun
    · refine agree (fun p c => !p.isBare c) hnarrowed fun _ _ _ _ hasked hp => ?_
      simp [hp] at hasked
    · exact agree PseudoClass.any s.asksOnly_any fun _ _ _ _ _ hp hr => hkeeps.reacts hp hr
  rw [run_match?_of_uncached digest _ mode id s e rfl, hsame.1, hsame.2]
  rfl

/-- Links that are pointed at, in quirks mode. The elder child takes the focus and the parent is no
longer pointed at, nor a link. -/
theorem match?_withState_family :
    let t := (Relative.tree fun _ => .ofFlags [.hover, .link]).toElementTree
    let state : Relative → ElementState
      | .parent => .none
      | .elder => .ofFlags [.hover, .focus, .link]
      | .younger => .ofFlags [.hover, .link]
    let s : Complex := ⟨[.pseudoClass .hover], []⟩
    ∃ verdict table, verdict.isMatch = true ∧ table.Misses t state ∧ table.KeepsReacting t state ∧
      (s.match? id t .quirks none none .elder).run ⟨none, some .empty⟩ =
          (verdict, ⟨none, some table⟩) ∧
        (s.match? id (t.withState state) .quirks none none .elder).run ⟨none, some .empty⟩ =
          (verdict, ⟨none, some table⟩) := by
  intro t state s
  obtain ⟨verdict, table, hrun, h⟩ := match?_withState id t .quirks none s .elder
  have hfound : (s.match? id t .quirks none none .elder).run ⟨none, some .empty⟩ =
      (⟨.accepted, none⟩, ⟨none, some (.record .empty 1 (.ofKinds [.hover]))⟩) := rfl
  obtain ⟨rfl, hmemory⟩ := Prod.mk.inj (hrun.symm.trans hfound)
  obtain rfl : table = _ := Option.some.inj (MatchMemory.mk.inj hmemory).2
  have hmisses : (DependencyTable.empty.record 1 (.ofKinds [.hover])).Misses t state := by
    refine DependencyTable.misses_record_hover fun x hx => ?_
    cases x <;> first | rfl | cases hx
  have hkeeps : (DependencyTable.empty.record 1 (.ofKinds [.hover])).KeepsReacting t state := by
    intro x hx
    simp only [DependencyTable.has_kinds_record_empty] at hx
    cases x <;> first | rfl | simp [t, Relative.tree, Relative.key] at hx
  exact ⟨_, _, rfl, hmisses, hkeeps, hrun, h state hmisses (.inr (.inr hkeeps))⟩

/-- The children are links that are pointed at, and then they are links no more. The only note is
that the elder child is pointed at, which it still is, yet it matches no longer. -/
theorem match?_withState_hover :
    let t := (Relative.tree fun _ => .ofFlags [.hover, .link]).toElementTree
    let state : Relative → ElementState := fun _ => .ofFlags [.hover]
    let s : Complex := ⟨[.pseudoClass .hover], []⟩
    ∃ table : DependencyTable, table.Misses t state ∧
      (s.match? id t .quirks none none .elder).run ⟨none, some .empty⟩ =
          (⟨.accepted, none⟩, ⟨none, some table⟩) ∧
        (s.match? id (t.withState state) .quirks none none .elder).run ⟨none, some .empty⟩ =
          (⟨.failsLocal, none⟩, ⟨none, some table⟩) := by
  intro t state s
  exact ⟨_, DependencyTable.misses_record_hover fun _ _ => rfl, rfl, rfl⟩

end Complex

end StyleEngine
