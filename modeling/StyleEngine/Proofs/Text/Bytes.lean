import Mathlib.Tactic.SplitIfs
import StyleEngine.Text.Ascii

/-!
# Bytes of a text

A text cut after some of its bytes is cut between two characters or not at all, and the byte of an
ASCII character occurs in no other one. Letters take one byte in either case, so folding the case of
a text moves no byte.

## Main statements

* `headBytes?_eq_some_iff`: what cutting a text gives.
* `byte?_append_eq_some_iff`: the byte after a head tells of an ASCII character.
* `utf8ByteSize_foldCase`: folding keeps the size.
-/

namespace StyleEngine.Text

theorem headBytes?_eq_some_iff {s head : String} {n : Nat} :
    headBytes? s n = some head ↔ head.utf8ByteSize = n ∧ ∃ rest, s = head ++ rest := by
  unfold headBytes?
  constructor
  · intro h
    split at h
    · next hn =>
      obtain rfl := Option.some.inj h
      have hsplits := (⟨⟨n⟩, hn⟩ : s.Pos).splits
      exact ⟨congrArg String.Pos.Raw.byteIdx hsplits.offset_eq_rawEndPos.symm, _,
        hsplits.eq_append⟩
    · cases h
  · rintro ⟨rfl, rest, rfl⟩
    have hn : String.Pos.Raw.IsValid (head ++ rest) ⟨head.utf8ByteSize⟩ :=
      String.Pos.Raw.isValid_iff_exists_append.mpr ⟨head, rest, rfl, rfl⟩
    have hsplits : (⟨⟨head.utf8ByteSize⟩, hn⟩ : (head ++ rest).Pos).Splits head rest := ⟨rfl, rfl⟩
    rw [dif_pos hn, hsplits.copy_sliceTo_eq]

/-- The first byte of a character is that of an ASCII character for this character only: all others
start with a byte of at least 192, or with their own number. -/
theorem head?_utf8EncodeChar {a : Char} (ha : a.val.toNat < 128) (c : Char) :
    (String.utf8EncodeChar c).head? = some a.toUInt8 ↔ c = a := by
  have hchar : c = a ↔ c.val.toNat = a.val.toNat := by
    rw [Char.ext_iff, UInt32.toNat_inj]
  have hbyte (n : Nat) : UInt8.ofNat n = a.toUInt8 ↔ n % 256 = a.val.toNat := by
    rw [← UInt8.toNat_inj, UInt8.toNat_ofNat', Char.toUInt8, UInt32.toNat_toUInt8]
    omega
  rw [hchar, String.utf8EncodeChar]
  generalize c.val.toNat = v
  split_ifs <;> simp only [List.head?_cons, Option.some.injEq, hbyte] <;> omega

theorem byte?_zero_ofList_cons (c : Char) (cs : List Char) :
    byte? (String.ofList (c :: cs)) 0 = (String.utf8EncodeChar c).head? := by
  rw [byte?, String.toByteArray_ofList, List.utf8Encode_cons, List.utf8Encode_singleton]
  simp only [ByteArray.data_append, List.data_toByteArray]
  rw [Array.getElem?_append_left (by simp [Char.utf8Size_pos]), List.getElem?_toArray,
    List.head?_eq_getElem?]

/-- After a head of so many bytes comes the byte of an ASCII character just if the character
comes. -/
theorem byte?_append_eq_some_iff {a : Char} (ha : a.val.toNat < 128) {head rest : String} :
    byte? (head ++ rest) head.utf8ByteSize = some a.toUInt8 ↔
      ∃ cs, rest.toList = a :: cs := by
  have hsize : head.toByteArray.data.size = head.utf8ByteSize := rfl
  have hrest : byte? (head ++ rest) head.utf8ByteSize = byte? rest 0 := by
    rw [byte?, String.toByteArray_append, ByteArray.data_append,
      Array.getElem?_append_right (by omega), hsize, Nat.sub_self, byte?]
  rw [hrest]
  cases hchars : rest.toList with
  | nil =>
    obtain rfl : rest = "" := String.toList_eq_nil_iff.mp hchars
    simp [byte?]
  | cons c cs =>
    obtain rfl : rest = String.ofList (c :: cs) := by rw [← hchars, String.ofList_toList]
    rw [byte?_zero_ofList_cons, head?_utf8EncodeChar ha]
    simp

/-! ## Folded texts -/

/-- A character is in lower case already, or it is one of `A` to `Z` and gets to `a` to `z`. -/
theorem toLower_cases (c : Char) :
    c.toLower = c ∨ (65 ≤ c.val.toNat ∧ c.val.toNat ≤ 90) ∧
      97 ≤ c.toLower.val.toNat ∧ c.toLower.val.toNat ≤ 122 := by
  unfold Char.toLower
  split
  · next h =>
    right
    simp [UInt32.le_iff_toNat_le, UInt32.toNat_add] at h ⊢
    omega
  · exact .inl rfl

theorem utf8Size_toLower (c : Char) : c.toLower.utf8Size = c.utf8Size := by
  rcases toLower_cases c with h | ⟨hc, -, hlower⟩
  · rw [h]
  · have one {d : Char} (hd : d.val.toNat ≤ 127) : d.utf8Size = 1 :=
      Char.utf8Size_eq_one_iff.mpr (UInt32.le_iff_toNat_le.mpr hd)
    rw [one (by omega), one (by omega)]

theorem utf8ByteSize_foldCase (s : String) : (foldCase s).utf8ByteSize = s.utf8ByteSize := by
  have hlist (cs : List Char) :
      (String.ofList (cs.map Char.toLower)).utf8ByteSize = (String.ofList cs).utf8ByteSize := by
    induction cs with
    | nil => rfl
    | cons c cs ih => simp [String.ofList_cons, utf8Size_toLower, ih]
  rw [foldCase, hlist, String.ofList_toList]

/-- Folding takes no other character to one before the letters. -/
theorem toLower_eq_iff {a : Char} (ha : a.val.toNat < 65) (c : Char) : c.toLower = a ↔ c = a := by
  rcases toLower_cases c with h | ⟨⟨hc, -⟩, hlower, -⟩
  · rw [h]
  · constructor
    · rintro rfl
      omega
    · rintro rfl
      omega

theorem foldCase_append (s s' : String) : foldCase (s ++ s') = foldCase s ++ foldCase s' := by
  simp [← String.toList_inj]

end StyleEngine.Text
