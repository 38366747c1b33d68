/-!
# Text compared as markup compares it

Names in a document are compared without regard to the case of the letters `A` to `Z`; no other
character has a case here. Attribute values are also cut into tokens at the five blanks of markup.

## Main definitions

* `foldCase`: the text with its ASCII letters in lower case.
* `sameFolded`: equality up to the case of ASCII letters.
* `tokens`: the maximal runs without a blank, in order.
* `headBytes?`: so many bytes from the start, unless they end inside a character.
-/

namespace StyleEngine.Text

/-- The text with its ASCII letters in lower case. -/
def foldCase (s : String) : String :=
  String.ofList (s.toList.map Char.toLower)

/-- Equality up to the case of ASCII letters. -/
def sameFolded (s t : String) : Bool :=
  foldCase s == foldCase t

@[simp] theorem toList_foldCase (s : String) :
    (foldCase s).toList = s.toList.map Char.toLower := by
  simp [foldCase]

theorem sameFolded_iff {s t : String} : sameFolded s t = true ↔ foldCase s = foldCase t := by
  simp [sameFolded]

/-- The blanks of markup: space, tab, line feed, form feed and carriage return. -/
def isMarkupBlank (c : Char) : Bool :=
  c == ' ' || c == '\t' || c == '\n' || c == '\x0c' || c == '\r'

/-- Splits `cs` at markup blanks; `word` holds the current token, last character first. -/
def tokensFrom (word : List Char) : List Char → List String
  | [] => if word.isEmpty then [] else [String.ofList word.reverse]
  | c :: cs =>
    if isMarkupBlank c then
      if word.isEmpty then tokensFrom [] cs
      else String.ofList word.reverse :: tokensFrom [] cs
    else tokensFrom (c :: word) cs

/-- The maximal runs of `s` without a markup blank, in order. -/
def tokens (s : String) : List String :=
  tokensFrom [] s.toList

/-- What follows `head` in `cs`, if `cs` starts with it. -/
def afterHead? : (head cs : List Char) → Option (List Char)
  | [], cs => some cs
  | _ :: _, [] => none
  | h :: head, c :: cs => if h = c then afterHead? head cs else none

theorem afterHead?_eq_some_iff {head cs rest : List Char} :
    afterHead? head cs = some rest ↔ cs = head ++ rest := by
  induction head generalizing cs with
  | nil => simp [afterHead?]
  | cons h head ih =>
    cases cs with
    | nil => simp [afterHead?]
    | cons c cs =>
      by_cases hc : h = c
      · simp [afterHead?, hc, ih]
      · simp [afterHead?, hc, Ne.symm hc]

/-- The first `n` bytes of `s`, if a character ends there. -/
def headBytes? (s : String) (n : Nat) : Option String :=
  if h : String.Pos.Raw.IsValid s ⟨n⟩ then some (s.sliceTo ⟨⟨n⟩, h⟩).copy else none

/-- The byte of `s` with `n` bytes before it. -/
def byte? (s : String) (n : Nat) : Option UInt8 :=
  s.toByteArray.data[n]?

/-- Whether `part` stands somewhere in `cs`. -/
def occursIn (part : List Char) : List Char → Bool
  | [] => part.isEmpty
  | c :: cs => part.isPrefixOf (c :: cs) || occursIn part cs

end StyleEngine.Text
