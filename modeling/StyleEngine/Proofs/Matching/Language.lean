import StyleEngine.Proofs.Matching.Plain
import StyleEngine.Proofs.Text.Bytes

/-!
# Languages

The pseudo-class for languages and the dash test on attributes ask the same of a language tag: to be
the range, or to go on after the range with a hyphen. One cuts the tag at the size of the range and
compares the head without regard to case, the other folds both texts and strips the range off.

## Main statements

* `inLanguageRange_eq_passes`: both tests agree on every tag and range.
* `ElementTree.inLanguage_iff`: the nearest element with a language decides.
-/

namespace StyleEngine

/-! ## Tags and ranges -/

theorem AttributeTest.passes_dashMatch_iff {actual expected : String} :
    dashMatch.passes actual expected = true ↔
      actual = expected ∨ ∃ rest, actual.toList = expected.toList ++ '-' :: rest := by
  simp only [passes, Bool.or_eq_true, beq_iff_eq]
  refine or_congr_right ⟨fun h => ?_, ?_⟩
  · split at h
    · next rest hrest => exact ⟨rest, Text.afterHead?_eq_some_iff.mp hrest⟩
    · cases h
  · rintro ⟨rest, hrest⟩
    simp [Text.afterHead?_eq_some_iff.mpr hrest]

/-- The head that is cut off has the size of the range, so it can be the range up to case. -/
theorem inLanguageRange_iff {range tag : String} :
    inLanguageRange range tag = true ↔
      Text.foldCase tag = Text.foldCase range ∨
        ∃ head rest, tag = head ++ rest ∧ Text.foldCase head = Text.foldCase range ∧
          ∃ cs, rest.toList = '-' :: cs := by
  have hdash : '-'.val.toNat < 128 := by decide
  rw [inLanguageRange, Bool.or_eq_true, Text.sameFolded_iff, or_comm]
  refine or_congr_right ?_
  simp only [Bool.and_eq_true, Option.any_eq_true, beq_iff_eq, Text.headBytes?_eq_some_iff,
    Text.sameFolded_iff]
  constructor
  · rintro ⟨⟨head, ⟨hsize, rest, rfl⟩, hhead⟩, hbyte⟩
    rw [← hsize, Text.byte?_append_eq_some_iff hdash] at hbyte
    exact ⟨head, rest, rfl, hhead, hbyte⟩
  · rintro ⟨head, rest, rfl, hhead, hrest⟩
    have hsize : head.utf8ByteSize = range.utf8ByteSize := by
      rw [← Text.utf8ByteSize_foldCase, hhead, Text.utf8ByteSize_foldCase]
    refine ⟨⟨head, ⟨hsize, rest, rfl⟩, hhead⟩, ?_⟩
    rw [← hsize, Text.byte?_append_eq_some_iff hdash]
    exact hrest

/-- A tag is in a range just if it passes the dash test, both of them folded. -/
theorem inLanguageRange_eq_passes (range tag : String) :
    inLanguageRange range tag =
      AttributeTest.dashMatch.passes (Text.foldCase tag) (Text.foldCase range) := by
  have hdash (c : Char) : c.toLower = '-' ↔ c = '-' := Text.toLower_eq_iff (by decide) c
  rw [Bool.eq_iff_iff, inLanguageRange_iff, AttributeTest.passes_dashMatch_iff]
  refine or_congr_right ⟨?_, ?_⟩
  · rintro ⟨head, rest, rfl, hhead, cs, hcs⟩
    refine ⟨cs.map Char.toLower, ?_⟩
    rw [Text.foldCase_append, hhead, String.toList_append, Text.toList_foldCase rest, hcs,
      List.map_cons, (hdash '-').mpr rfl]
  · rintro ⟨rest, hrest⟩
    -- The folded tag falls into two parts, and so does the tag, at the same place.
    rw [Text.toList_foldCase, List.map_eq_append_iff] at hrest
    obtain ⟨head, tail, htag, hhead, htail⟩ := hrest
    obtain ⟨c, cs, rfl, hc, -⟩ := List.map_eq_cons_iff.mp htail
    obtain rfl := (hdash c).mp hc
    refine ⟨String.ofList head, String.ofList ('-' :: cs), ?_, ?_, cs, String.toList_ofList⟩
    · rw [← String.ofList_append, ← htag, String.ofList_toList]
    · rw [← String.toList_inj, Text.toList_foldCase, String.toList_ofList, hhead]

/-- A range that ends inside a character of the tag, and one in another case. -/
example : inLanguageRange "d" "é-" = false ∧ inLanguageRange "dÉ" "DÉ-at" = true := by
  decide +kernel

/-! ## The nearest language -/

variable {ε : Type}

/-- Among an element and its ancestors, `a` is the nearest that has the attribute. -/
def ElementTree.NearestWith (t : ElementTree ε) (name : String) (e a : ε) : Prop :=
  (t.attribute? a name).isSome ∧
    ∃ before after, e :: t.ancestors e = before ++ a :: after ∧
      ∀ x ∈ before, t.attribute? x name = none

theorem ElementTree.inLanguage_iff {t : ElementTree ε} {e : ε} {range : String} :
    t.inLanguage e range = true ↔
      ∃ a, t.NearestWith "lang" e a ∧
        (t.attribute? a "lang").any (inLanguageRange range) = true := by
  have nearest_iff {tag : String} :
      (e :: t.ancestors e).findSome? (t.attribute? · "lang") = some tag ↔
        ∃ a, t.NearestWith "lang" e a ∧ t.attribute? a "lang" = some tag := by
    rw [List.findSome?_eq_some_iff]
    constructor
    · rintro ⟨before, a, after, hsplit, ha, hbefore⟩
      exact ⟨a, ⟨Option.isSome_of_eq_some ha, before, after, hsplit, hbefore⟩, ha⟩
    · rintro ⟨a, ⟨-, before, after, hsplit, hbefore⟩, ha⟩
      exact ⟨before, a, after, hsplit, ha, hbefore⟩
  have hany : t.inLanguage e range =
      ((e :: t.ancestors e).findSome? (t.attribute? · "lang")).any (inLanguageRange range) := by
    rw [inLanguage]
    cases List.findSome? _ _ <;> rfl
  simp only [hany, Option.any_eq_true, nearest_iff]
  grind

/-- The dash test without regard to case, on an attribute that may be missing. -/
theorem AttributeSelector.holdsOf_dashMatch (name range : String) (value? : Option String) :
    holdsOf ⟨name, .dashMatch, range, true⟩ value? = value?.any (inLanguageRange range) := by
  cases value? with
  | none => rfl
  | some tag => simp [holdsOf, inLanguageRange_eq_passes]

/-- An element is in a range of languages just if it or an ancestor has a language, and the nearest
one that has passes the dash test without regard to case: its language is the range, or goes on
after the range with a hyphen. -/
theorem Simple.test_language_iff (t : ElementTree ε) (mode mode' : DocumentMode)
    (isSubject isSubject' : Bool) (whole whole' : Compound) (e : ε) (range : String)
    (m m' : MatchMemory) :
    let dashed (a : ε) : Bool :=
      ((Simple.test t mode' isSubject' whole' a
        (.attribute ⟨"lang", .dashMatch, range, true⟩)).run m').1
    (((Simple.test t mode isSubject whole e (.pseudoClass (.lang range))).run m).1 = true ↔
        ∃ a, t.NearestWith "lang" e a ∧ dashed a = true) ∧
      ∀ a, dashed a = true ↔ ∃ tag, t.attribute? a "lang" = some tag ∧
        (Text.foldCase tag = Text.foldCase range ∨ ∃ rest,
          (Text.foldCase tag).toList = (Text.foldCase range).toList ++ '-' :: rest) := by
  intro dashed
  have hdashed (a : ε) : dashed a = (t.attribute? a "lang").any (inLanguageRange range) := by
    simp only [dashed, Simple.tells_test t _ _ _ _ _ _, Simple.holds,
      AttributeSelector.holdsOf_dashMatch]
  simp only [hdashed]
  constructor
  · simp only [Simple.tells_test t _ _ _ _ _ _, Simple.holds, PseudoClass.holds]
    exact ElementTree.inLanguage_iff
  · intro a
    simp only [Option.any_eq_true, inLanguageRange_eq_passes, AttributeTest.passes_dashMatch_iff]

end StyleEngine
