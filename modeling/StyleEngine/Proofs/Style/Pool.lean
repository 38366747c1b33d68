import StyleEngine.Proofs.Style.Shortcut

/-!
# A pool of styles

Styles that are made, copied, written to and put into each other share their groups. A write to a
group that another style holds too goes to a copy; a write to any other group is made in place, and
every holder of the group sees it. Since nobody else holds a group that is written in place, each
operation shows in the styles that it is about and in no other.

## Main definitions

* `StylePool`, `StyleOp`: the styles that are around, and what can be done with them.
* `StylePool.write`: a write, to a copy or in place.
* `StylePool.Acts`: the ways in which operations act on styles.
* `StylePool.Honest`: identities stand for contents.

## Main statements

* `StylePool.Sound.step`, `StylePool.Sound.frame`: what one operation does.
* `StylePool.honest_run`: what holds after any operations.
-/

namespace StyleEngine

/-- The styles that are around, under numbers. -/
structure StylePool where
  /-- The style that styles are started from. -/
  initial : ComputedStyle
  /-- A style that was put into another one, or dropped, leaves its number free. -/
  slots : List (Option ComputedStyle)
  /-- The stamp of the next operation. -/
  next : Stamp

/-- An operation on a pool. What it makes gets the next number. -/
inductive StyleOp
  | fresh
  /-- Starts a style with what it inherits from a parent. -/
  | freshFor (parent : Option Nat)
  | freshPseudo (pseudo : PseudoElement) (owner : Nat)
  | clone (i : Nat)
  | set (i : Nat) (f : Field) (v : f.Value)
  | setFont (i : Nat) (font : Font)
  | inheritFrom (i parent : Nat)
  | compactWith (i similar : Nat)
  /-- Moves a style into another one. -/
  | addPseudo (i style : Nat)
  /-- Takes the style of a pseudo-element out. -/
  | removePseudo (i : Nat) (pseudo : PseudoElement)
  /-- Computes a style from declarations. The initial style and the parent are those of the pool. -/
  | apply (c : StyleContext) (parent : Option Nat) (ds : List Declaration)
  | drop (i : Nat)

namespace StylePool

/-- A pool without styles but the initial one. -/
def start (mediumPx : Float32) : StylePool :=
  ⟨.initial 0 mediumPx, [], 1⟩

/-- The style under a number. -/
def style? (p : StylePool) (i : Nat) : Option ComputedStyle :=
  (p.slots[i]?).join

/-- All styles, the initial one included. -/
def styles (p : StylePool) : List ComputedStyle :=
  p.initial :: p.slots.reduceOption

/-- The own parts of all styles and of those in them: each holds eight groups. -/
def parts (p : StylePool) : List OwnStyle :=
  p.initial.parts ++ p.slots.flatMap (·.elim [] ComputedStyle.parts)

def push (p : StylePool) (s : ComputedStyle) : StylePool :=
  { p with slots := p.slots ++ [some s] }

def put (p : StylePool) (i : Nat) (s : Option ComputedStyle) : StylePool :=
  { p with slots := p.slots.set i s }

/-- Changes the style under a number, if there is one. -/
def update (p : StylePool) (i : Nat) (f : ComputedStyle → ComputedStyle) : StylePool :=
  match p.style? i with
  | some s => p.put i (some (f s))
  | none => p

/-- The number of holders of a group. -/
def holders (p : StylePool) (g : Group) (identity : Stamp) : Nat :=
  p.parts.countP fun own => (own.handle g).identity == identity

/-- The stamp under which a style writes to a group: that of the group, which is then written in
place, if nobody else holds it, and else a new one. -/
def writeStamp (p : StylePool) (own : OwnStyle) (g : Group) : Stamp :=
  if p.holders g (own.handle g).identity = 1 then (own.handle g).identity else p.next

/-- Shows every holder of a group what is in it. -/
def publish (p : StylePool) (g : Group) (h : Shared g.Contents) : StylePool :=
  let see (own : OwnStyle) : OwnStyle :=
    if (own.handle g).same h then own.withHandle g h else own
  { p with
    initial := p.initial.mapParts see
    slots := p.slots.map (·.map (ComputedStyle.mapParts see)) }

/-- Writes to a group of a style, in place or to a copy. -/
def write (p : StylePool) (i : Nat) (g : Group) (f : Stamp → OwnStyle → OwnStyle) : StylePool :=
  match p.style? i with
  | some s =>
    let own := f (p.writeStamp s.own g) s.own
    (p.put i (some { s with own := own })).publish g (own.handle g)
  | none => p

/-- What an operation does. An operation on a style that is not there does nothing. -/
def act (p : StylePool) : StyleOp → StylePool
  | .fresh => p.push p.initial
  | .freshFor parent => p.push (.freshFor p.initial (parent.bind p.style?))
  | .freshPseudo pseudo i => p.push (.freshPseudo p.initial pseudo (p.style? i))
  | .clone i => (p.style? i).elim p p.push
  | .set i f v =>
    match f.group? with
    | some g => p.write i g fun stamp own => own.set stamp f v
    | none => p.update i fun s => s.set p.next f v
  | .setFont i font => p.write i .typography fun stamp own => own.setFont stamp font
  | .inheritFrom i j => (p.style? j).elim p fun parent => p.update i (·.inheritFrom parent)
  | .compactWith i j => (p.style? j).elim p fun similar => p.update i (·.compactWith similar)
  | .addPseudo i j =>
    -- A style for no pseudo-element is lost.
    (p.style? j).elim p fun style =>
      (p.put j none).update i fun s => (s.attach style).toOption.getD s
  | .removePseudo i pseudo =>
    ((p.style? i).bind (·.pseudo? pseudo)).elim p fun style =>
      (p.update i (·.detach pseudo)).push style
  | .apply c parent ds =>
    let context := { c with initial := p.initial, parent := parent.bind p.style? }
    (context.apply p.next ds).toOption.elim p p.push
  | .drop i => p.put i none

def step (p : StylePool) (op : StyleOp) : StylePool :=
  { p.act op with next := p.next + 1 }

def run (p : StylePool) (ops : List StyleOp) : StylePool :=
  ops.foldl step p

/-- The numbers of the styles that an operation is about. -/
def targets (p : StylePool) : StyleOp → List Nat
  | .fresh | .freshFor _ | .freshPseudo .. | .clone _ | .apply .. => [p.slots.length]
  | .set i .. | .setFont i _ | .inheritFrom i _ | .compactWith i _ | .drop i => [i]
  | .addPseudo i j => [i, j]
  | .removePseudo i _ => [i, p.slots.length]

/-! ## Parts -/

variable {p : StylePool} {i : Nat} {s : ComputedStyle}

theorem mem_parts_initial {own : OwnStyle} (h : p.initial.Part own) : own ∈ p.parts :=
  List.mem_append_left _ ((ComputedStyle.mem_parts _ _).mpr h)

theorem mem_parts_style? (hs : p.style? i = some s) {own : OwnStyle} (h : s.Part own) :
    own ∈ p.parts := by
  have hslot : p.slots[i]? = some (some s) := Option.join_eq_some_iff.mp hs
  refine List.mem_append_right _ (List.mem_flatMap.mpr ⟨_, List.mem_of_getElem? hslot, ?_⟩)
  exact (ComputedStyle.mem_parts _ _).mpr h

theorem mem_parts_push {own : OwnStyle} :
    own ∈ (p.push s).parts ↔ own ∈ p.parts ∨ s.Part own := by
  simp [parts, push, ComputedStyle.mem_parts, or_assoc]

theorem mem_parts_of_put {o : Option ComputedStyle} {own : OwnStyle} (h : own ∈ (p.put i o).parts) :
    own ∈ p.parts ∨ ∃ s ∈ o, s.Part own := by
  rcases List.mem_append.mp h with h | h
  · exact .inl (List.mem_append_left _ h)
  · obtain ⟨slot, hslot, hown⟩ := List.mem_flatMap.mp h
    rcases List.mem_or_eq_of_mem_set hslot with hslot | rfl
    · exact .inl (List.mem_append_right _ (List.mem_flatMap.mpr ⟨slot, hslot, hown⟩))
    · cases slot with
      | none => cases hown
      | some s => exact .inr ⟨s, rfl, (ComputedStyle.mem_parts _ _).mp hown⟩

theorem mem_parts_of_update {f : ComputedStyle → ComputedStyle} {own : OwnStyle}
    (h : own ∈ (p.update i f).parts) :
    own ∈ p.parts ∨ ∃ s, p.style? i = some s ∧ (f s).Part own := by
  unfold update at h
  split at h
  · next s hs =>
    refine (mem_parts_of_put h).imp_right ?_
    rintro ⟨_, ⟨⟩, hown⟩
    exact ⟨s, hs, hown⟩
  · exact .inl h

/-- The own part of a style stands between the other parts, and can be exchanged there. -/
theorem exists_parts_eq (hs : p.style? i = some s) :
    ∃ l l', p.parts = l ++ s.own :: l' ∧
      ∀ own, (p.put i (some { s with own := own })).parts = l ++ own :: l' := by
  obtain ⟨own, pseudos⟩ := s
  have hslot : p.slots[i]? = some (some ⟨own, pseudos⟩) := Option.join_eq_some_iff.mp hs
  obtain ⟨hi, hget⟩ := List.getElem?_eq_some_iff.mp hslot
  have hsplit : p.slots = p.slots.take i ++ some ⟨own, pseudos⟩ :: p.slots.drop (i + 1) := by
    rw [← hget, List.getElem_cons_drop, List.take_append_drop]
  have hset (own' : OwnStyle) : p.slots.set i (some ⟨own', pseudos⟩) =
      p.slots.take i ++ some ⟨own', pseudos⟩ :: p.slots.drop (i + 1) := by
    rw [List.set_eq_take_append_cons_drop, if_pos hi]
  have hparts (own' : OwnStyle) (l l' : List (Option ComputedStyle)) :
      p.initial.parts ++ (l ++ some ⟨own', pseudos⟩ :: l').flatMap (·.elim [] ComputedStyle.parts) =
        (p.initial.parts ++ l.flatMap (·.elim [] ComputedStyle.parts)) ++
          own' :: (ComputedStyle.partsOfAll pseudos ++
            l'.flatMap (·.elim [] ComputedStyle.parts)) := by
    simp [ComputedStyle.parts]
  refine ⟨p.initial.parts ++ (p.slots.take i).flatMap (·.elim [] ComputedStyle.parts),
    ComputedStyle.partsOfAll pseudos ++
      (p.slots.drop (i + 1)).flatMap (·.elim [] ComputedStyle.parts), ?_, fun own' => ?_⟩
  · rw [parts, ← hparts own]
    conv_lhs => rw [hsplit]
  · rw [parts, put, ← hparts own']
    dsimp only
    rw [hset]

/-! ## Coherent pools -/

/-- A pool in which identities stand for contents. -/
def Sound (p : StylePool) : Prop :=
  Coherent (· ∈ p.parts) p.next

/-- A pool stays coherent if at most one new part comes in, made under the stamp of the
operation. -/
theorem Sound.of_made (h : p.Sound) {p' : StylePool} {own : OwnStyle}
    (hown : own.Made (· ∈ p.parts) p.next) (hparts : ∀ a ∈ p'.parts, a = own ∨ a ∈ p.parts) :
    Coherent (· ∈ p'.parts) (p.next + 1) :=
  (h.insert_made hown).mono hparts

/-- A pool stays coherent if no new part comes in. -/
theorem Sound.of_subset (h : p.Sound) {p' : StylePool} (hparts : p'.parts ⊆ p.parts) :
    Coherent (· ∈ p'.parts) (p.next + 1) :=
  h.of_made ((OwnStyle.Composed.of_mem (mem_parts_initial (.own p.initial))).made p.next)
    fun _ ha => .inr (hparts ha)

/-- In a coherent pool every holder sees what is in a group. -/
theorem publish_eq_self {n : Stamp} (h : Coherent (· ∈ p.parts) n) {own : OwnStyle}
    (hown : own ∈ p.parts) (g : Group) : p.publish g (own.handle g) = p := by
  have hsee (a : OwnStyle) (ha : a ∈ p.parts) :
      (if (a.handle g).same (own.handle g) then a.withHandle g (own.handle g) else a) = a := by
    split
    · next hsame =>
      have hvalue := OwnStyle.sharesEqual_iff.mp (h.sharesEqual ha hown) g hsame
      have hidentity : (a.handle g).identity = (own.handle g).identity := beq_iff_eq.mp hsame
      have hhandle : a.handle g = own.handle g := by
        cases ha : a.handle g
        cases hb : own.handle g
        rw [ha, hb] at hvalue hidentity
        dsimp only at hvalue hidentity
        rw [hvalue, hidentity]
      rw [← hhandle, OwnStyle.withHandle_handle]
    · rfl
  have hinitial := ComputedStyle.mapParts_eq_self p.initial fun a ha =>
    hsee a (List.mem_append_left _ ha)
  have hslot (slot : Option ComputedStyle) (hslot : slot ∈ p.slots) :
      slot.map (ComputedStyle.mapParts fun a =>
        if (a.handle g).same (own.handle g) then a.withHandle g (own.handle g) else a) = slot := by
    cases slot with
    | none => rfl
    | some s =>
      refine congrArg some (ComputedStyle.mapParts_eq_self s fun a ha => hsee a ?_)
      exact List.mem_append_right _ (List.mem_flatMap.mpr ⟨some s, hslot, ha⟩)
  have hslots := (List.map_congr_left hslot).trans (List.map_id p.slots)
  rw [publish]
  simp only [hinitial, hslots]

/-- A style holds the written group by itself, or writes to a copy: either way nobody else holds a
group under the stamp. -/
theorem Sound.write (h : p.Sound) {g : Group} {f : Stamp → OwnStyle → OwnStyle}
    (hf : ∀ stamp own, f stamp own = own ∨
      ∃ contents, f stamp own = own.withHandle g (.write stamp contents)) (i : Nat) :
    Coherent (· ∈ (p.write i g f).parts) (p.next + 1) ∧
      p.write i g f = p.update i fun s => { s with own := f (p.writeStamp s.own g) s.own } := by
  unfold StylePool.write update
  cases hs : p.style? i with
  | none => exact ⟨h.of_subset (List.Subset.refl _), rfl⟩
  | some s =>
    obtain ⟨l, l', hparts, hput⟩ := exists_parts_eq hs
    have hmem : s.own ∈ p.parts := mem_parts_style? hs (.own s)
    have hothers : ∀ own ∈ l ++ l', own ∈ p.parts := by
      intro own hown
      rw [hparts]
      rcases List.mem_append.mp hown with hown | hown
      · exact List.mem_append_left _ hown
      · exact List.mem_append_right _ (List.mem_cons_of_mem _ hown)
    dsimp only
    generalize hown : f (p.writeStamp s.own g) s.own = own
    have hcoherent : Coherent (· ∈ (p.put i (some { s with own := own })).parts) (p.next + 1) := by
      rcases hf (p.writeStamp s.own g) s.own with heq | ⟨contents, heq⟩
      · refine h.of_subset ?_
        rw [hput, hparts, ← hown, heq]
        exact List.Subset.refl _
      · have hstamp : (∀ a ∈ l ++ l', (a.handle g).identity ≠ p.writeStamp s.own g) ∧
            p.writeStamp s.own g < p.next + 1 := by
          unfold writeStamp
          split
          · next hunique =>
            refine ⟨fun a ha hid => ?_, Nat.lt_succ_of_lt (h.identity_lt hmem g)⟩
            rw [holders, hparts, List.countP_append, List.countP_cons_of_pos (by simp)] at hunique
            have hnone : (l ++ l').countP
                (fun own => (own.handle g).identity == (s.own.handle g).identity) = 0 := by
              rw [List.countP_append]
              omega
            exact List.countP_eq_zero.mp hnone a ha (beq_iff_eq.mpr hid)
          · exact ⟨fun a ha => Nat.ne_of_lt (h.identity_lt (hothers a ha) g), Nat.lt_succ_self _⟩
        refine (Coherent.insert_withHandle h hmem hothers hstamp.1 hstamp.2 contents).mono ?_
        intro a ha
        rw [hput, List.mem_append, List.mem_cons] at ha
        rw [← heq, hown, List.mem_append]
        tauto
    have hpart : own ∈ (p.put i (some { s with own := own })).parts := by
      rw [hput]
      exact List.mem_append_right _ List.mem_cons_self
    rw [publish_eq_self hcoherent hpart g]
    exact ⟨hcoherent, rfl⟩

/-! ## Operations -/

/-- A style comes in whose own part is made under the stamp of the operation. -/
theorem Sound.push (h : p.Sound) (hs : s.own.Made (· ∈ p.parts) p.next)
    (hpseudos : s.pseudos = p.initial.pseudos) :
    Coherent (· ∈ (p.push s).parts) (p.next + 1) := by
  refine h.of_made hs fun own hown => ?_
  rcases mem_parts_push.mp hown with hown | hown
  · exact .inr hown
  · exact (ComputedStyle.part_of_pseudos_eq hpseudos hown).imp_right mem_parts_initial

/-- The own part of a style is made anew. -/
theorem Sound.update (h : p.Sound) {f : ComputedStyle → ComputedStyle}
    (hown : ∀ s, p.style? i = some s → (f s).own.Made (· ∈ p.parts) p.next)
    (hpseudos : ∀ s, (f s).pseudos = s.pseudos) :
    Coherent (· ∈ (p.update i f).parts) (p.next + 1) := by
  cases hs : p.style? i with
  | none =>
    rw [StylePool.update, hs]
    exact h.of_subset (List.Subset.refl _)
  | some s =>
    refine h.of_made (hown s hs) fun own hown => ?_
    rcases mem_parts_of_update hown with hown | ⟨s', hs', hown⟩
    · exact .inr hown
    · obtain rfl := Option.some.inj (hs.symm.trans hs')
      exact (ComputedStyle.part_of_pseudos_eq (hpseudos s) hown).imp_right (mem_parts_style? hs)

/-- What an operation makes of the styles, and the numbers that it is about: it does nothing, makes
or copies a style, changes one in place, moves one into another or out of it, or drops one. -/
inductive Acts (p : StylePool) : List Nat → StylePool → Prop
  | idle (l : List Nat) : Acts p l p
  | make {s : ComputedStyle} (made : s.own.Made (· ∈ p.parts) p.next)
    (bare : s.pseudos = p.initial.pseudos) : Acts p [p.slots.length] (p.push s)
  | copy {i : Nat} {s : ComputedStyle} (found : p.style? i = some s) :
    Acts p [p.slots.length] (p.push s)
  | change {i : Nat} {f : ComputedStyle → ComputedStyle} (kept : ∀ s, (f s).pseudos = s.pseudos)
    (coherent : Coherent (· ∈ (p.update i f).parts) (p.next + 1)) : Acts p [i] (p.update i f)
  | moveIn {i j : Nat} {style : ComputedStyle} (found : p.style? j = some style) :
    Acts p [i, j] ((p.put j none).update i fun s => (s.attach style).toOption.getD s)
  | moveOut {i : Nat} {pseudo : PseudoElement} {s style : ComputedStyle}
    (found : p.style? i = some s) (attached : s.pseudo? pseudo = some style) :
    Acts p [i, p.slots.length] ((p.update i (·.detach pseudo)).push style)
  | drop (i : Nat) : Acts p [i] (p.put i none)

/-- Each operation acts in one of these ways. -/
theorem Sound.acts (h : p.Sound) (op : StyleOp) : p.Acts (p.targets op) (p.act op) := by
  have hinitial : p.initial.own.Composed (· ∈ p.parts) := .of_mem (mem_parts_initial (.own _))
  have hstyle {i : Nat} {s : ComputedStyle} (hs : p.style? i = some s) : s.own ∈ p.parts :=
    mem_parts_style? hs (.own s)
  have hparent (parent : Option Nat) : ∀ s ∈ parent.bind p.style?, s.own ∈ p.parts := by
    intro s hs
    obtain ⟨i, -, hs⟩ := Option.bind_eq_some_iff.mp hs
    exact hstyle hs
  have hwrite (i : Nat) {g : Group} {f : Stamp → OwnStyle → OwnStyle}
      (hf : ∀ stamp own, f stamp own = own ∨
        ∃ contents, f stamp own = own.withHandle g (.write stamp contents)) :
      p.Acts [i] (p.write i g f) := by
    obtain ⟨hcoherent, heq⟩ := h.write hf i
    rw [heq] at hcoherent ⊢
    exact .change (fun _ => rfl) hcoherent
  have hchange (i : Nat) {f : ComputedStyle → ComputedStyle}
      (hown : ∀ s, p.style? i = some s → (f s).own.Made (· ∈ p.parts) p.next)
      (hpseudos : ∀ s, (f s).pseudos = s.pseudos) : p.Acts [i] (p.update i f) :=
    .change hpseudos (h.update hown hpseudos)
  cases op with
  | fresh => exact .make (hinitial.made _) rfl
  | freshFor parent =>
    exact .make ((ComputedStyle.composed_freshFor hinitial (hparent parent)).made _)
      (ComputedStyle.pseudos_freshFor _ _)
  | freshPseudo pseudo i =>
    exact .make
      ((ComputedStyle.composed_freshPseudo hinitial (fun s hs => hstyle hs) pseudo).made _)
      (ComputedStyle.pseudos_freshFor _ _)
  | clone i =>
    rw [StylePool.act]
    cases hs : p.style? i with
    | none => exact .idle _
    | some s => exact .copy hs
  | set i f v =>
    rw [StylePool.act]
    split
    · next g hg => exact hwrite i fun stamp own => own.set_cases stamp v hg
    · exact hchange i (fun s hs => ((OwnStyle.Composed.of_mem (hstyle hs)).made _).set f v)
        fun _ => rfl
  | setFont i font => exact hwrite i fun stamp own => own.setFont_cases stamp font
  | inheritFrom i j =>
    rw [StylePool.act]
    cases hj : p.style? j with
    | none => exact .idle _
    | some parent =>
      exact hchange i (fun s hs => (ComputedStyle.composed_inheritFrom (.of_mem (hstyle hs))
        (hstyle hj)).made _) fun _ => rfl
  | compactWith i j =>
    rw [StylePool.act]
    cases hj : p.style? j with
    | none => exact .idle _
    | some similar =>
      exact hchange i (fun s hs => (ComputedStyle.composed_compactWith (hstyle hs)
        (hstyle hj)).made _) fun _ => rfl
  | addPseudo i j =>
    rw [StylePool.act]
    cases hj : p.style? j with
    | none => exact .idle _
    | some style => exact .moveIn hj
  | removePseudo i pseudo =>
    rw [StylePool.act]
    cases hfound : (p.style? i).bind (·.pseudo? pseudo) with
    | none => exact .idle _
    | some style =>
      obtain ⟨s, hs, hpseudo⟩ := Option.bind_eq_some_iff.mp hfound
      exact .moveOut hs hpseudo
  | apply c parent ds =>
    rw [StylePool.act]
    cases happly : StyleContext.apply
        { c with initial := p.initial, parent := parent.bind p.style? } p.next ds with
    | error e => exact .idle _
    | ok s =>
      exact .make (StyleContext.made_apply (mem_parts_initial (.own p.initial)) (hparent parent)
        happly) (StyleContext.pseudos_apply happly)
  | drop i => exact .drop i

/-- What an operation does keeps identities standing for contents. -/
theorem Sound.of_acts (h : p.Sound) {l : List Nat} {p' : StylePool} (hacts : p.Acts l p') :
    Coherent (· ∈ p'.parts) (p.next + 1) := by
  cases hacts with
  | idle => exact h.of_subset (List.Subset.refl _)
  | make made bare => exact h.push made bare
  | copy found =>
    refine h.of_subset fun own hown => ?_
    exact (mem_parts_push.mp hown).elim id (mem_parts_style? found)
  | change _ coherent => exact coherent
  | @moveIn i j style found =>
    have hput {own : OwnStyle} (hown : own ∈ (p.put j none).parts) : own ∈ p.parts :=
      (mem_parts_of_put hown).resolve_right nofun
    refine h.of_subset fun own hown => ?_
    rcases mem_parts_of_update hown with hown | ⟨s, hs, hown⟩
    · exact hput hown
    · cases hattach : s.attach style with
      | error e =>
        rw [hattach] at hown
        exact hput (mem_parts_style? hs hown)
      | ok s' =>
        rw [hattach] at hown
        rcases ComputedStyle.part_of_attach hattach hown with hown | hown
        · exact hput (mem_parts_style? hs hown)
        · exact mem_parts_style? found hown
  | moveOut found attached =>
    obtain ⟨entry, hentry, rfl⟩ := ComputedStyle.mem_of_pseudo? attached
    refine h.of_subset fun own hown => ?_
    rcases mem_parts_push.mp hown with hown | hown
    · rcases mem_parts_of_update hown with hown | ⟨s', hs', hown⟩
      · exact hown
      · rcases ComputedStyle.part_iff.mp hown with rfl | ⟨entry, hentry, hpart⟩
        · exact mem_parts_style? hs' (.own s')
        · exact mem_parts_style? hs' (.pseudo (List.eraseP_subset hentry) hpart)
    · exact mem_parts_style? found (.pseudo hentry hown)
  | drop =>
    refine h.of_subset fun own hown => ?_
    exact (mem_parts_of_put hown).resolve_right nofun

/-- One operation keeps identities standing for contents. -/
theorem Sound.step (h : p.Sound) (op : StyleOp) : (p.step op).Sound :=
  show Coherent (· ∈ (p.act op).parts) (p.next + 1) from h.of_acts (h.acts op)

theorem sound_start (mediumPx : Float32) : (start mediumPx).Sound := by
  have hparts : (start mediumPx).parts = [.initial 0 mediumPx] := by
    simp [parts, start, ComputedStyle.initial, ComputedStyle.parts, ComputedStyle.partsOfAll]
  constructor
  · intro a b ha hb
    rw [hparts, List.mem_singleton] at ha hb
    rw [ha, hb]
    exact OwnStyle.sharesEqual_iff.mpr fun _ _ => rfl
  · intro a ha g
    rw [hparts, List.mem_singleton] at ha
    rw [ha]
    cases g <;> exact Nat.zero_lt_one

theorem sound_run (h : p.Sound) (ops : List StyleOp) : (p.run ops).Sound := by
  induction ops generalizing p with
  | nil => exact h
  | cons op ops ih => exact ih (h.step op)

/-! ## Other styles -/

theorem style?_push_of_ne {k : Nat} (hk : k ≠ p.slots.length) :
    (p.push s).style? k = p.style? k := by
  rw [style?, style?, push, List.getElem?_append]
  split
  · rfl
  · next hlt =>
    rw [List.getElem?_eq_none (by simp; omega), List.getElem?_eq_none (by omega)]

theorem style?_put_of_ne {k : Nat} (hk : k ≠ i) (o : Option ComputedStyle) :
    (p.put i o).style? k = p.style? k := by
  rw [style?, style?, put, List.getElem?_set_ne (Ne.symm hk)]

theorem style?_update_of_ne {k : Nat} (hk : k ≠ i) (f : ComputedStyle → ComputedStyle) :
    (p.update i f).style? k = p.style? k := by
  unfold update
  split
  · exact style?_put_of_ne hk _
  · rfl

theorem initial_update (f : ComputedStyle → ComputedStyle) :
    (p.update i f).initial = p.initial := by
  unfold update
  split <;> rfl

theorem length_slots_update (f : ComputedStyle → ComputedStyle) :
    (p.update i f).slots.length = p.slots.length := by
  unfold update
  split
  · exact List.length_set
  · rfl

theorem Acts.frame {l : List Nat} {p' : StylePool} (h : p.Acts l p') :
    p'.initial = p.initial ∧ ∀ k ∉ l, p'.style? k = p.style? k := by
  cases h with
  | idle => exact ⟨rfl, fun _ _ => rfl⟩
  | make | copy => exact ⟨rfl, fun k hk => style?_push_of_ne (by simpa using hk)⟩
  | change => exact ⟨initial_update _, fun k hk => style?_update_of_ne (by simpa using hk) _⟩
  | @moveIn i j =>
    refine ⟨initial_update _, fun k hk => ?_⟩
    obtain ⟨hi, hj⟩ : k ≠ i ∧ k ≠ j := by simpa using hk
    exact (style?_update_of_ne hi _).trans (style?_put_of_ne hj none)
  | @moveOut i =>
    refine ⟨initial_update _, fun k hk => ?_⟩
    obtain ⟨hi, hlength⟩ : k ≠ i ∧ k ≠ p.slots.length := by simpa using hk
    exact (style?_push_of_ne (by rwa [length_slots_update])).trans (style?_update_of_ne hi _)
  | drop => exact ⟨rfl, fun k hk => style?_put_of_ne (by simpa using hk) none⟩

/-- An operation does not show in the styles that it is not about, nor in the initial style. -/
theorem Sound.frame (h : p.Sound) (op : StyleOp) :
    (p.step op).initial = p.initial ∧
      ∀ k ∉ p.targets op, (p.step op).style? k = p.style? k :=
  (h.acts op).frame

/-! ## Honest identities -/

/-- Identities stand for contents. So equality of handles is that of contents, and styles are found
equal, or the class of a change is found, as without a look at identities: as for a style with
groups of its own. A number that is none is not equal to itself, so equality by contents says
nothing about a group that holds one. -/
structure Honest (p : StylePool) : Prop where
  contents : ∀ a ∈ p.parts, ∀ b ∈ p.parts, ∀ g, (a.handle g).same (b.handle g) = true →
    (a.handle g).value = (b.handle g).value
  handle_beq : ∀ a ∈ p.parts, ∀ b ∈ p.parts, ∀ g,
    ((a.handle g).value == (a.handle g).value) = true →
    (a.handle g == b.handle g) = ((a.handle g).value == (b.handle g).value)
  beq : ∀ s ∈ p.styles, ∀ s' ∈ p.styles, s.Numeric → (s == s') = (s == s'.restamp p.next)
  difference : ∀ s ∈ p.styles, ∀ s' ∈ p.styles, s.Numeric → s'.Numeric →
    s.difference s' = s.difference (s'.restamp p.next)

theorem mem_parts_of_mem_styles (hs : s ∈ p.styles) {own : OwnStyle} (hown : s.Part own) :
    own ∈ p.parts := by
  rcases List.mem_cons.mp hs with rfl | hs
  · exact mem_parts_initial hown
  · obtain hslot := List.reduceOption_mem_iff.mp hs
    refine List.mem_append_right _ (List.mem_flatMap.mpr ⟨_, hslot, ?_⟩)
    exact (ComputedStyle.mem_parts _ _).mpr hown

theorem Sound.honest (h : p.Sound) : p.Honest := by
  have hshared {s s' : ComputedStyle} (hs : s ∈ p.styles) (hs' : s' ∈ p.styles) (a b : OwnStyle)
      (ha : s.Part a) (hb : s'.Part b) : a.SharesEqual b :=
    h.sharesEqual (mem_parts_of_mem_styles hs ha) (mem_parts_of_mem_styles hs' hb)
  have hlt {s : ComputedStyle} (hs : s ∈ p.styles) (a : OwnStyle) (ha : s.Part a) (g : Group) :
      (a.handle g).identity < p.next :=
    h.identity_lt (mem_parts_of_mem_styles hs ha) g
  exact
    { contents := fun _ ha _ hb => OwnStyle.sharesEqual_iff.mp (h.sharesEqual ha hb)
      handle_beq := fun _ ha _ hb _ hself => (h.sharesEqual ha hb).handle_beq hself
      beq := fun _ hs _ hs' hnumeric => hnumeric.beq_restamp (hshared hs hs') (hlt hs)
      difference := fun _ hs _ hs' hnumeric hnumeric' =>
        hnumeric.difference_restamp (hshared hs hs') (hlt hs) hnumeric' }

/-- After any operations identities stand for contents, and any further operation shows in no style
but those that it is about. -/
theorem honest_run (mediumPx : Float32) (ops : List StyleOp) (op : StyleOp) :
    let p := (start mediumPx).run ops
    p.Honest ∧ (p.step op).initial = p.initial ∧
      ∀ k ∉ p.targets op, (p.step op).style? k = p.style? k :=
  have h := sound_run (sound_start mediumPx) ops
  ⟨h.honest, h.frame op⟩

/-- The first write goes to a copy, as the initial style holds the group; the second one is made in
place; a write after a copy was made goes to a new group again. -/
example :
    (((start 16).run [.fresh, .set 0 (.sizing .width) (.fixed 10),
      .set 0 (.sizing .width) (.fixed 20), .clone 0,
      .set 1 (.sizing .width) (.fixed 30)]).slots.map (·.map (·.own.sizing.identity))) =
      [some 2, some 5] := by
  decide +kernel

end StylePool

end StyleEngine
