import StyleEngine.Style.Shared

/-!
# Handles under names

A group that stands under several names is written through one of them. The name gets a group of its
own, and all other names show what they showed before.

## Main definitions

* `HandlePool.Made`: a pool after any operations.
* `HandlePool.Sound`: what holds of such a pool.

## Main statements

* `HandlePool.Made.sound`: names are in order, and handles to one group have equal contents.
* `HandlePool.Made.write_alone`: a write shows under one name only.
* `HandlePool.Made.copy_shared`: a copy is a second handle to one group.
-/

namespace StyleEngine.HandlePool

variable {α : Type} {p p' : HandlePool α} {name source : String} {handle : Shared α} {value : α}

/-! ## Slots -/

/-- Slots in the order of their names, one for each name. -/
def Sorted (l : List (String × Shared α)) : Prop :=
  l.Pairwise fun a b => a.1 < b.1

theorem mem_insertSorted_iff {l : List (String × Shared α)} (hl : Sorted l)
    {slot : String × Shared α} : slot ∈ put.insertSorted name handle l ↔
      slot = (name, handle) ∨ slot ∈ l ∧ slot.1 ≠ name := by
  induction l with
  | nil => simp [put.insertSorted]
  | cons first rest ih =>
    obtain ⟨hfirst, hrest⟩ := List.pairwise_cons.mp hl
    have hafter : name = first.1 ∨ name < first.1 → slot ∈ rest → slot.1 ≠ name := by
      rintro hle hslot rfl
      have hlt := hfirst slot hslot
      grind
    rw [put.insertSorted]
    split
    · grind
    · split
      · grind
      · rw [List.mem_cons, List.mem_cons, ih hrest]
        grind

theorem Sorted.insertSorted {l : List (String × Shared α)} (hl : Sorted l) :
    Sorted (put.insertSorted name handle l) := by
  induction l with
  | nil => simp [put.insertSorted, Sorted]
  | cons first rest ih =>
    obtain ⟨hfirst, hrest⟩ := List.pairwise_cons.mp hl
    rw [put.insertSorted]
    split
    · next heq => exact List.pairwise_cons.mpr ⟨heq ▸ hfirst, hrest⟩
    · next hne =>
      split
      · next hlt =>
        refine List.pairwise_cons.mpr ⟨fun slot hslot => ?_, hl⟩
        rcases List.mem_cons.mp hslot with rfl | hslot
        · exact hlt
        · exact String.lt_trans hlt (hfirst slot hslot)
      · next hge =>
        refine List.pairwise_cons.mpr ⟨fun slot hslot => ?_, ih hrest⟩
        rcases (mem_insertSorted_iff hrest).mp hslot with rfl | ⟨hslot, -⟩
        · exact Std.lt_of_le_of_ne (String.not_lt.mp hge) (Ne.symm hne)
        · exact hfirst slot hslot

/-- A name that was put shows its handle, and the others show what they did. -/
theorem find?_put (p : HandlePool α) (name : String) (handle : Shared α) (other : String) :
    (p.put name handle).find? other = if other = name then some handle else p.find? other := by
  obtain ⟨slots, next⟩ := p
  unfold put find?
  dsimp only
  induction slots with
  | nil => grind [put.insertSorted]
  | cons first rest ih => grind [put.insertSorted]

/-- A group is shared if it stands under two names. -/
theorem isShared_iff (hp : Sorted p.slots) : p.isShared handle = true ↔
    ∃ a ∈ p.slots, ∃ b ∈ p.slots, a.1 ≠ b.1 ∧ a.2.same handle = true ∧ b.2.same handle = true := by
  have hnames : Sorted (p.slots.filter (·.2.same handle)) := hp.sublist List.filter_sublist
  have hmem (slot : String × Shared α) : slot ∈ p.slots.filter (·.2.same handle) ↔
      slot ∈ p.slots ∧ slot.2.same handle = true := List.mem_filter
  rw [isShared, namesOfSame, List.length_map, decide_eq_true_eq]
  generalize p.slots.filter (·.2.same handle) = l at hnames hmem
  constructor
  · intro hlength
    match l with
    | a :: b :: rest =>
      obtain ⟨ha, ha'⟩ := (hmem a).mp List.mem_cons_self
      obtain ⟨hb, hb'⟩ := (hmem b).mp (List.mem_cons_of_mem a List.mem_cons_self)
      have hlt : a.1 < b.1 := (List.pairwise_cons.mp hnames).1 b List.mem_cons_self
      exact ⟨a, ha, b, hb, fun heq => String.lt_irrefl _ (heq ▸ hlt), ha', hb'⟩
  · rintro ⟨a, ha, b, hb, hne, ha', hb'⟩
    have hal := (hmem a).mpr ⟨ha, ha'⟩
    have hbl := (hmem b).mpr ⟨hb, hb'⟩
    match l with
    | [c] =>
      rw [List.mem_singleton.mp hal, List.mem_singleton.mp hbl] at hne
      exact absurd rfl hne
    | _ :: _ :: _ => exact Nat.succ_lt_succ (Nat.succ_pos _)

/-! ## Pools -/

/-- The names of a pool are in order, its stamp is newer than its groups, and handles to one group
have equal contents. -/
structure Sound (p : HandlePool α) : Prop where
  sorted : Sorted p.slots
  old : ∀ a ∈ p.slots, a.2.identity < p.next
  value_eq : ∀ a ∈ p.slots, ∀ b ∈ p.slots, a.2.same b.2 = true → a.2.value = b.2.value

theorem sound_empty : (empty : HandlePool α).Sound :=
  ⟨.nil, fun _ h => absurd h List.not_mem_nil, fun _ h => absurd h List.not_mem_nil⟩

/-- A handle can be put if it agrees with the handles to its group. -/
theorem Sound.put (h : p.Sound) (hold : handle.identity < p.next)
    (heq : ∀ a ∈ p.slots, a.2.same handle = true → a.2.value = handle.value) :
    (p.put name handle).Sound where
  sorted := h.sorted.insertSorted
  old a ha := by
    rcases (mem_insertSorted_iff h.sorted).mp ha with rfl | ⟨ha, -⟩
    · exact hold
    · exact h.old a ha
  value_eq a ha b hb hsame := by
    rcases (mem_insertSorted_iff h.sorted).mp ha with rfl | ⟨ha, -⟩ <;>
      rcases (mem_insertSorted_iff h.sorted).mp hb with rfl | ⟨hb, -⟩
    · rfl
    · exact (heq b hb (beq_iff_eq.mpr (beq_iff_eq.mp hsame).symm)).symm
    · exact heq a ha hsame
    · exact h.value_eq a ha b hb hsame

/-- No handle is to a group that has yet to be made. -/
theorem Sound.not_same (h : p.Sound) {a : String × Shared α} (ha : a ∈ p.slots) :
    a.2.same (.write p.next value) = false := by
  exact beq_false_of_ne (Nat.ne_of_lt (h.old a ha))

theorem Sound.create (h : p.Sound) (name : String) (value : α) : (p.create name value).Sound :=
  Sound.put (p := { p with next := p.next + 1 })
    ⟨h.sorted, fun a ha => Nat.lt_succ_of_lt (h.old a ha), h.value_eq⟩ (Nat.lt_succ_self _)
    fun a ha hsame => by rw [h.not_same ha] at hsame; cases hsame

theorem Sound.drop (h : p.Sound) (name : String) : (p.drop name).Sound where
  sorted := h.sorted.sublist List.filter_sublist
  old a ha := h.old a (List.mem_filter.mp ha).1
  value_eq a ha b hb := h.value_eq a (List.mem_filter.mp ha).1 b (List.mem_filter.mp hb).1

/-- What a name shows stands in a slot. -/
theorem mem_of_find? (h : p.find? name = some handle) : (name, handle) ∈ p.slots := by
  obtain ⟨slot, hfound, rfl⟩ := Option.map_eq_some_iff.mp h
  have hname : slot.1 = name := by simpa using List.find?_some hfound
  exact hname ▸ List.mem_of_find?_eq_some hfound

theorem Sound.copy (h : p.Sound) (hrun : p.copy? name source = some p') : p'.Sound := by
  obtain ⟨handle, hsource, rfl⟩ := Option.map_eq_some_iff.mp hrun
  have hmem := mem_of_find? hsource
  exact h.put (h.old _ hmem) fun a ha hsame => h.value_eq a ha _ hmem hsame

/-- A pool after any operations. -/
inductive Made : HandlePool α → Prop
  | empty : Made empty
  | create {p : HandlePool α} (name : String) (value : α) : Made p → Made (p.create name value)
  | copy {p p' : HandlePool α} {name source : String} : Made p →
    p.copy? name source = some p' → Made p'
  | write {p p' : HandlePool α} {name : String} {value : α} : Made p →
    p.write? name value = some p' → Made p'
  | drop {p : HandlePool α} (name : String) : Made p → Made (p.drop name)

theorem Made.sound (hp : p.Made) : p.Sound := by
  induction hp with
  | empty => exact sound_empty
  | create name value _ ih => exact ih.create name value
  | copy _ hrun ih => exact ih.copy hrun
  | write _ hrun ih =>
    obtain ⟨-, -, rfl⟩ := Option.map_eq_some_iff.mp hrun
    exact ih.create _ _
  | drop name _ ih => exact ih.drop name

/-- A write shows under one name only. All other names show what they did, and none of them is to
the group that was written. -/
theorem Made.write_alone (hp : p.Made) (hrun : p.write? name value = some p') :
    p'.find? name = some (.write p.next value) ∧
      (∀ other, other ≠ name → p'.find? other = p.find? other) ∧
      p'.isShared (.write p.next value) = false := by
  have hsound : p'.Sound := (hp.write hrun).sound
  obtain ⟨-, -, rfl⟩ := Option.map_eq_some_iff.mp hrun
  have hfind (other : String) : (p.create name value).find? other =
      if other = name then some (.write p.next value) else p.find? other :=
    p.find?_put name (.write p.next value) other
  refine ⟨by rw [hfind, if_pos rfl], fun other hne => by rw [hfind, if_neg hne], ?_⟩
  rw [Bool.eq_false_iff, ne_eq, isShared_iff hsound.sorted]
  rintro ⟨a, ha, b, hb, hne, ha', hb'⟩
  have alone {slot : String × Shared α} (hslot : slot ∈ (p.create name value).slots)
      (hsame : slot.2.same (.write p.next value) = true) : slot.1 = name := by
    rcases (mem_insertSorted_iff hp.sound.sorted).mp hslot with rfl | ⟨hslot, -⟩
    · rfl
    · rw [hp.sound.not_same hslot] at hsame
      cases hsame
  exact hne ((alone ha ha').trans (alone hb hb').symm)

/-- A copy is a second handle to one group, and all names but its own show what they did. -/
theorem Made.copy_shared (hp : p.Made) (hrun : p.copy? name source = some p')
    (hne : name ≠ source) : ∃ handle, p'.find? source = some handle ∧
      p'.find? name = some handle ∧ p'.isShared handle = true ∧
      ∀ other, other ≠ name → p'.find? other = p.find? other := by
  have hsound : p'.Sound := (hp.copy hrun).sound
  obtain ⟨handle, hsource, rfl⟩ := Option.map_eq_some_iff.mp hrun
  have hname : (p.put name handle).find? name = some handle := by rw [find?_put, if_pos rfl]
  have hsource' : (p.put name handle).find? source = some handle := by
    rw [find?_put, if_neg hne.symm, hsource]
  refine ⟨handle, hsource', hname, ?_, fun other hother => by rw [find?_put, if_neg hother]⟩
  exact (isShared_iff hsound.sorted).mpr ⟨_, mem_of_find? hname, _, mem_of_find? hsource', hne,
    Shared.same_self _, Shared.same_self _⟩

end StyleEngine.HandlePool
