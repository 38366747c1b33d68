import StyleEngine.Proofs.Matching.Plain

/-!
# Matching with a memory

A cache that holds true answers only gives the answers of plain matching, and stays true. An answer
that is read from it notes nothing, so it has to be an answer whose readings are noted already; this
too stays true.

## Main definitions

* `MatchScope`: what is fixed while elements are matched, with the elements that may be looked at.
* `MatchScope.Sound`: a memory that holds true answers with their readings.
* `MatchScope.Serves`: a computation that answers and notes as it should on every sound memory.

## Main statements

* `MatchScope.serves_matchAt`: the whole selector is answered as without a memory.
-/

namespace StyleEngine

variable {ε : Type}

/-! ## Notes in a table -/

namespace DependencyTable

/-- Whether all the given readings are noted. -/
def Has (t : ElementTree ε) (table : DependencyTable) (rs : Readings ε) : Prop :=
  ∀ r ∈ rs, ∀ kind ∈ r.2, (table.kinds (t.key r.1)).has kind = true

theorem has_kinds_record (table : DependencyTable) (key key' : ElementKey)
    (kinds : DependencyKinds) (kind : DependencyKind) :
    ((table.record key kinds).kinds key').has kind =
      ((table.kinds key').has kind || (key == key' && kinds.has kind)) := by
  unfold record
  split
  · next h =>
    have hnone : kinds = .none := by simpa [DependencyKinds.isEmpty] using h
    simp [hnone, DependencyKinds.none]
  · by_cases h : key = key'
    · subst h
      simp [DependencyTable.kinds]
    · simp [DependencyTable.kinds, Std.HashMap.getD_insert, h]

theorem kinds_forget (table : DependencyTable) (key key' : ElementKey) :
    (table.forget key).kinds key' = if key = key' then .none else table.kinds key' := by
  simp [forget, DependencyTable.kinds, Std.HashMap.getD_erase]

variable {t : ElementTree ε} {table : DependencyTable} {rs rs' : Readings ε}

@[simp] theorem has_nil : table.Has t [] := by
  simp [Has]

@[simp] theorem has_append : table.Has t (rs ++ rs') ↔ table.Has t rs ∧ table.Has t rs' := by
  simp [Has, or_imp, forall_and]

/-- Notes are only added. -/
theorem kinds_noteAll {key : ElementKey} {kind : DependencyKind} (rs : Readings ε)
    (h : (table.kinds key).has kind = true) :
    ((table.noteAll t rs).kinds key).has kind = true := by
  induction rs generalizing table with
  | nil => exact h
  | cons r rs ih => exact ih (by rw [has_kinds_record, h, Bool.true_or])

theorem Has.noteAll (h : table.Has t rs) (rs' : Readings ε) : (table.noteAll t rs').Has t rs :=
  fun r hr kind hkind => kinds_noteAll rs' (h r hr kind hkind)

theorem has_noteAll (table : DependencyTable) (rs : Readings ε) :
    (table.noteAll t rs).Has t rs := by
  induction rs generalizing table with
  | nil => exact has_nil
  | cons r rs ih =>
    intro r' hr' kind hkind
    rcases List.mem_cons.mp hr' with rfl | hr'
    · refine kinds_noteAll rs ?_
      rw [has_kinds_record]
      simpa using .inr hkind
    · exact ih (table.record (t.key r.1) (.ofKinds r.2)) r' hr' kind hkind

end DependencyTable

/-- Whether all the given readings are noted, if anything is noted at all. -/
def MatchMemory.Noted (t : ElementTree ε) (m : MatchMemory) (rs : Readings ε) : Prop :=
  ∀ table ∈ m.dependencies, table.Has t rs

/-- A later memory keeps a cache and notes if the earlier one did, and has all its notes. -/
structure MatchMemory.Extends (t : ElementTree ε) (m m' : MatchMemory) : Prop where
  cache : m'.cache.isSome = m.cache.isSome
  dependencies : m'.dependencies.isSome = m.dependencies.isSome
  noted : ∀ {rs : Readings ε}, m.Noted t rs → m'.Noted t rs

namespace MatchMemory

variable {t : ElementTree ε} {m m' m'' : MatchMemory} {rs rs' : Readings ε}

@[simp] theorem noted_nil : m.Noted t [] := by
  simp [Noted]

@[simp] theorem noted_append : m.Noted t (rs ++ rs') ↔ m.Noted t rs ∧ m.Noted t rs' := by
  simp [Noted, forall_and]

theorem noted_noteAll (m : MatchMemory) (rs : Readings ε) : (m.noteAll t rs).Noted t rs := by
  intro table htable
  obtain ⟨table', -, rfl⟩ := Option.map_eq_some_iff.mp htable
  exact table'.has_noteAll rs

theorem Extends.refl : m.Extends t m :=
  ⟨rfl, rfl, id⟩

theorem Extends.trans (h : m.Extends t m') (h' : m'.Extends t m'') : m.Extends t m'' :=
  ⟨h'.cache.trans h.cache, h'.dependencies.trans h.dependencies, fun hrs => h'.noted (h.noted hrs)⟩

theorem extends_noteAll (m : MatchMemory) (rs : Readings ε) : m.Extends t (m.noteAll t rs) where
  cache := rfl
  dependencies := by simp [noteAll]
  noted h table htable := by
    obtain ⟨table', htable', rfl⟩ := Option.map_eq_some_iff.mp htable
    exact (h table' htable').noteAll rs

end MatchMemory

/-! ## Answers in a cache -/

namespace MatchCache

/-- Asking changes no answer. -/
theorem current?_get (c : MatchCache) (e : ElementKey) (id : SelectorId) (place : Nat) (k : Key) :
    (c.get e id place).2.current? k = c.current? k := by
  unfold get
  cases key? e id place with
  | none => rfl
  | some k' => cases h : c.current? k' <;> simp only [h] <;> rfl

theorem fst_get (c : MatchCache) (e : ElementKey) (id : SelectorId) (place : Nat) :
    (c.get e id place).1 = (key? e id place).bind c.current? := by
  unfold get
  cases key? e id place with
  | none => rfl
  | some k => cases h : c.current? k <;> simp [h]

/-- Keeping an answer changes the answer for its key, if it has one, and no other. -/
theorem current?_set (c : MatchCache) (e : ElementKey) (id : SelectorId) (place : Nat)
    (outcome : Outcome) (k : Key) :
    (c.set e id place outcome).current? k =
      if key? e id place = some k then some outcome else c.current? k := by
  unfold set
  cases h : key? e id place with
  | none => simp
  | some k' =>
    by_cases hk : k' = k
    · simp [current?, hk]
    · simp [current?, Std.HashMap.getElem?_insert, hk]

theorem eq_of_key? {e : ElementKey} {id : SelectorId} {place : Nat} {k : Key}
    (h : key? e id place = some k) :
    k.element = e ∧ k.selector = id ∧ k.compound.toNat = place := by
  unfold key? at h
  split at h
  · next hlt =>
    obtain rfl := Option.some.inj h
    exact ⟨rfl, rfl, UInt16.toNat_ofNat_of_lt hlt⟩
  · cases h

end MatchCache

/-- An answer that is there is taken; else the answer found is kept. -/
theorem MatchM.run_remembered (key : ElementKey) (id : SelectorId) (place : Nat)
    (find : MatchM Outcome) (cache : MatchCache) (dependencies : Option DependencyTable) :
    (remembered key (some id) place find).run ⟨some cache, dependencies⟩ =
      let asked : MatchMemory := ⟨some (cache.get key id place).2, dependencies⟩
      match (cache.get key id place).1 with
      | some outcome => (outcome, asked)
      | none =>
        ((find.run asked).1,
          { (find.run asked).2 with
            cache := (find.run asked).2.cache.map (·.set key id place (find.run asked).1) }) := by
  cases h : (cache.get key id place).1 with
  | none =>
    change (match (cache.get key id place).1 with | some _ => _ | none => _ : MatchM Outcome).run _
      = _
    rw [h]
    rfl
  | some outcome =>
    change (match (cache.get key id place).1 with | some _ => _ | none => _ : MatchM Outcome).run _
      = _
    rw [h]
    rfl

/-! ## Sound memories -/

/-- What is fixed while elements are matched: the tree, the mode, and the selectors that ids stand
for. Only elements that were `seen` are looked at. -/
structure MatchScope (ε : Type) where
  tree : ElementTree ε
  mode : DocumentMode
  select : SelectorId → Option Complex
  seen : ε → Prop
  seen_candidate : ∀ {combinator e a}, seen e → a ∈ Combinator.candidates tree e combinator → seen a

namespace MatchScope

variable (σ : MatchScope ε)

/-- A true answer: it was found for a compound of a selector at an element that was seen, and what
it hung on is noted. -/
structure TrueAnswer (m : MatchMemory) (k : MatchCache.Key) (outcome : Outcome) (a : ε)
    (before : List (Combinator × Compound)) (combinator : Combinator) (c : Compound)
    (left : List (Combinator × Compound)) (s : Complex) : Prop where
  seen : σ.seen a
  key_eq : σ.tree.key a = k.element
  select_eq : σ.select k.selector = some s
  left_eq : s.left = before ++ (combinator, c) :: left
  place_eq : k.compound.toNat = before.length + 1
  outcome_eq : outcome = Complex.outcomeFrom σ.tree σ.mode c left a
  noted : m.Noted σ.tree (Complex.readingsFrom σ.tree σ.mode c left a)

/-- All answers that can be read are true. If answers are kept at all, then the keys of the elements
that were seen differ. -/
structure Sound (m : MatchMemory) : Prop where
  eq_of_key : m.cache.isSome → ∀ {a b}, σ.seen a → σ.seen b → σ.tree.key a = σ.tree.key b → a = b
  answers : ∀ cache ∈ m.cache, ∀ k outcome, cache.current? k = some outcome →
    ∃ a before combinator c left s, σ.TrueAnswer m k outcome a before combinator c left s

/-- On every sound memory the computation answers `a`, leaves a sound memory, and has noted `rs`
there. -/
def Serves {α : Type} (x : MatchM α) (a : α) (rs : Readings ε) : Prop :=
  ∀ m, σ.Sound m → (x.run m).1 = a ∧ σ.Sound (x.run m).2 ∧ (x.run m).2.Noted σ.tree rs ∧
    m.Extends σ.tree (x.run m).2

variable {σ} {α β : Type}

theorem TrueAnswer.extend {m m' : MatchMemory} {k : MatchCache.Key} {outcome : Outcome} {a : ε}
    {before : List (Combinator × Compound)} {combinator : Combinator} {c : Compound}
    {left : List (Combinator × Compound)} {s : Complex}
    (h : σ.TrueAnswer m k outcome a before combinator c left s) (hm : m.Extends σ.tree m') :
    σ.TrueAnswer m' k outcome a before combinator c left s :=
  { h with noted := hm.noted h.noted }

theorem sound_of_uncached {m : MatchMemory} (hm : m.cache = none) : σ.Sound m where
  eq_of_key h := by simp [hm] at h
  answers cache hc := by simp [hm] at hc

/-- A memory with the same answers and more notes is as sound. -/
theorem Sound.extend {m m' : MatchMemory} (h : σ.Sound m) (hm : m.Extends σ.tree m')
    (hcache : ∀ cache' ∈ m'.cache, ∃ cache ∈ m.cache, ∀ k, cache'.current? k = cache.current? k) :
    σ.Sound m' where
  eq_of_key hsome := h.eq_of_key (hm.cache ▸ hsome)
  answers := by
    intro cache' hcache' k outcome hk
    obtain ⟨cache, hc, heq⟩ := hcache cache' hcache'
    obtain ⟨a, before, combinator, c, left, s, htrue⟩ := h.answers cache hc k outcome (heq k ▸ hk)
    exact ⟨a, before, combinator, c, left, s, htrue.extend hm⟩

theorem serves_pure (a : α) : σ.Serves (pure a) a [] :=
  fun _ hm => ⟨rfl, hm, MatchMemory.noted_nil, .refl⟩

theorem Serves.bind {x : MatchM α} {f : α → MatchM β} {a : α} {b : β} {rs rs' : Readings ε}
    (hx : σ.Serves x a rs) (hf : σ.Serves (f a) b rs') : σ.Serves (x >>= f) b (rs ++ rs') := by
  intro m hm
  obtain ⟨ha, hsound, hnoted, hext⟩ := hx m hm
  obtain ⟨hb, hsound', hnoted', hext'⟩ := hf _ hsound
  rw [MatchM.run_bind, ha]
  exact ⟨hb, hsound', MatchMemory.noted_append.mpr ⟨hext'.noted hnoted, hnoted'⟩, hext.trans hext'⟩

theorem Serves.map {x : MatchM α} {a : α} {rs : Readings ε} (hx : σ.Serves x a rs) (f : α → β) :
    σ.Serves (do let v ← x; pure (f v)) (f a) rs := by
  have h := hx.bind (f := fun v => pure (f v)) (serves_pure (f a))
  rwa [List.append_nil] at h

/-- A computation that hangs on no memory serves. -/
theorem serves_of_tells {x : MatchM α} {a : α} {rs : Readings ε} (h : x.Tells σ.tree a rs) :
    σ.Serves x a rs := by
  intro m hm
  rw [h m]
  exact ⟨rfl, hm.extend (m.extends_noteAll rs) fun cache hc => ⟨cache, hc, fun _ => rfl⟩,
    m.noted_noteAll rs, m.extends_noteAll rs⟩

section Remembered

variable {i : SelectorId} {s : Complex} {before : List (Combinator × Compound)}
  {combinator : Combinator} {c : Compound} {left : List (Combinator × Compound)} {a : ε}
  {m : MatchMemory}

/-- What a sound memory remembers of a compound at an element is what plain matching finds. -/
theorem Sound.eq_of_hit (hm : σ.Sound m) {cache : MatchCache} (hc : cache ∈ m.cache)
    (hi : σ.select i = some s) (hs : s.left = before ++ (combinator, c) :: left) (ha : σ.seen a)
    {outcome : Outcome}
    (hit : (cache.get (σ.tree.key a) i (before.length + 1)).1 = some outcome) :
    outcome = Complex.outcomeFrom σ.tree σ.mode c left a ∧
      m.Noted σ.tree (Complex.readingsFrom σ.tree σ.mode c left a) := by
  rw [MatchCache.fst_get, Option.bind_eq_some_iff] at hit
  obtain ⟨k, hk, hcurrent⟩ := hit
  obtain ⟨hkey, hselector, hplace⟩ := MatchCache.eq_of_key? hk
  obtain ⟨a', before', combinator', c', left', s', h⟩ := hm.answers cache hc k outcome hcurrent
  have hsome : m.cache.isSome := Option.isSome_of_mem hc
  obtain rfl : a' = a := hm.eq_of_key hsome h.seen ha (h.key_eq.trans hkey)
  obtain rfl : s = s' := Option.some.inj (hi.symm.trans (hselector ▸ h.select_eq))
  have hlen : before'.length = before.length := by
    have := h.place_eq
    omega
  -- Equal places cut one list into equal parts.
  obtain ⟨-, hparts⟩ := List.append_inj (h.left_eq.symm.trans hs) hlen
  simp only [List.cons.injEq, Prod.mk.injEq] at hparts
  obtain ⟨⟨rfl, rfl⟩, rfl⟩ := hparts
  exact ⟨h.outcome_eq, h.noted⟩

/-- A memory stays sound when a true answer with noted readings is kept. -/
theorem Sound.keep (hm : σ.Sound m) (hi : σ.select i = some s)
    (hs : s.left = before ++ (combinator, c) :: left) (ha : σ.seen a)
    (hnoted : m.Noted σ.tree (Complex.readingsFrom σ.tree σ.mode c left a)) :
    σ.Sound { m with
      cache := m.cache.map (·.set (σ.tree.key a) i (before.length + 1)
        (Complex.outcomeFrom σ.tree σ.mode c left a)) } := by
  refine ⟨fun hsome => hm.eq_of_key (by simpa using hsome), ?_⟩
  intro cache' hc k outcome hk
  obtain ⟨cache, hcache, rfl⟩ := Option.map_eq_some_iff.mp hc
  rw [MatchCache.current?_set] at hk
  split at hk
  · next hkey =>
    obtain rfl := Option.some.inj hk
    obtain ⟨helement, hselector, hplace⟩ := MatchCache.eq_of_key? hkey
    exact ⟨a, before, combinator, c, left, s, ha, helement.symm, hselector ▸ hi, hs, hplace, rfl,
      hnoted⟩
  · obtain ⟨a', before', combinator', c', left', s', h⟩ := hm.answers cache hcache k outcome hk
    exact ⟨a', before', combinator', c', left', s',
      h.seen, h.key_eq, h.select_eq, h.left_eq, h.place_eq, h.outcome_eq, h.noted⟩

/-- A remembered computation serves if the computation that finds the answer does. -/
theorem serves_remembered {id : Option SelectorId} (hid : ∀ i ∈ id, σ.select i = some s)
    (hs : s.left = before ++ (combinator, c) :: left) (ha : σ.seen a) {find : MatchM Outcome}
    (hfind : σ.Serves find (Complex.outcomeFrom σ.tree σ.mode c left a)
      (Complex.readingsFrom σ.tree σ.mode c left a)) :
    σ.Serves (MatchM.remembered (σ.tree.key a) id (before.length + 1) find)
      (Complex.outcomeFrom σ.tree σ.mode c left a)
      (Complex.readingsFrom σ.tree σ.mode c left a) := by
  rintro ⟨cache, dependencies⟩ hm
  cases id with
  | none => exact hfind _ hm
  | some i =>
    cases cache with
    | none => exact hfind _ hm
    | some cache =>
      let asked : MatchMemory :=
        ⟨some (cache.get (σ.tree.key a) i (before.length + 1)).2, dependencies⟩
      have hext : MatchMemory.Extends σ.tree ⟨some cache, dependencies⟩ asked :=
        ⟨rfl, rfl, fun h => h⟩
      have hasked : σ.Sound asked := hm.extend hext fun cache' hc => by
        obtain rfl := Option.some.inj hc
        exact ⟨cache, rfl, cache.current?_get _ _ _⟩
      rw [MatchM.run_remembered]
      cases hit : (cache.get (σ.tree.key a) i (before.length + 1)).1 with
      | some outcome =>
        obtain ⟨houtcome, hnoted⟩ := hm.eq_of_hit rfl (hid i rfl) hs ha hit
        exact ⟨houtcome, hasked, hnoted, hext⟩
      | none =>
        obtain ⟨hanswer, hsound, hnoted, hext'⟩ := hfind asked hasked
        have hkept := hsound.keep (hid i rfl) hs ha hnoted
        rw [← hanswer] at hkept
        refine ⟨hanswer, hkept, hnoted, (hext.trans hext').trans ⟨?_, rfl, fun h => h⟩⟩
        exact Option.isSome_map

end Remembered

/-! ## Walks -/

theorem serves_firstDecisive {attempt : ε → MatchM Outcome} {outcome : ε → Outcome}
    {readings : ε → Readings ε} {l : List ε}
    (h : ∀ a ∈ l, σ.Serves (attempt a) (outcome a) (readings a)) (exhausted : Outcome) :
    σ.Serves (MatchM.firstDecisive attempt exhausted l) (.firstDecisive outcome exhausted l)
      ((Outcome.tried outcome l).flatMap readings) := by
  induction l with
  | nil => exact serves_pure exhausted
  | cons a l ih =>
    have ha := h a List.mem_cons_self
    have hl := ih fun b hb => h b (List.mem_cons_of_mem a hb)
    rw [MatchM.firstDecisive, Outcome.firstDecisive, Outcome.tried, List.flatMap_cons]
    refine ha.bind ?_
    split
    · exact hl
    · exact serves_pure _

/-- All that is left of a compound is answered as by plain matching, from any sound memory. -/
theorem serves_matchLeft {id : Option SelectorId} {s : Complex}
    (hid : ∀ i ∈ id, σ.select i = some s) {before left : List (Combinator × Compound)}
    (hs : s.left = before ++ left) {e : ε} (he : σ.seen e) :
    σ.Serves (Complex.matchLeft σ.tree σ.mode id left (before.length + 1) e)
      (Complex.outcomeLeft σ.tree σ.mode left e) (Complex.readingsLeft σ.tree σ.mode left e) := by
  induction left generalizing before e with
  | nil => exact serves_pure _
  | cons head left ih =>
    obtain ⟨combinator, c⟩ := head
    rw [Complex.matchLeft_cons, Complex.outcomeLeft_cons, Complex.readingsLeft_cons]
    refine (serves_of_tells (combinator.tells_note σ.tree e)).bind (serves_firstDecisive ?_ _)
    intro a ha
    have ha : σ.seen a := σ.seen_candidate he ha
    refine serves_remembered hid hs ha ?_
    rw [Complex.outcomeFrom, Complex.readingsFrom]
    refine (serves_of_tells (Compound.tells_test σ.tree σ.mode false c a)).bind ?_
    cases c.holds σ.tree σ.mode false a with
    | false => exact serves_pure _
    | true =>
      have hs' : s.left = (before ++ [(combinator, c)]) ++ left := by simp [hs]
      have hleft := ih hs' ha
      simpa using hleft

/-- The whole selector is answered as by plain matching, from any sound memory. -/
theorem serves_matchAt {id : Option SelectorId} {s : Complex}
    (hid : ∀ i ∈ id, σ.select i = some s) {e : ε} (he : σ.seen e) :
    σ.Serves (s.matchAt σ.tree σ.mode id e) (s.outcome σ.tree σ.mode e)
      (s.readings σ.tree σ.mode e) := by
  rw [Complex.matchAt, Complex.outcome, Complex.readings]
  refine (serves_of_tells (Compound.tells_test σ.tree σ.mode true s.subject e)).bind ?_
  cases s.subject.holds σ.tree σ.mode true e with
  | false => exact serves_pure _
  | true =>
    have hs : s.left = [] ++ s.left := rfl
    exact serves_matchLeft hid hs he

end MatchScope

end StyleEngine
