import StyleEngine.Selector.Basic

/-!
# Tests on attribute values and languages
-/

namespace StyleEngine

namespace AttributeTest

/-- Whether the value `actual` of an attribute passes the test with the operand `expected`. Tests
that look for a part of a value never pass with an empty operand. -/
def passes (test : AttributeTest) (actual expected : String) : Bool :=
  match test with
  | .present => true
  | .equals => actual == expected
  | .includes =>
    !expected.isEmpty && !expected.toList.any Text.isMarkupBlank &&
      (Text.tokens actual).contains expected
  | .dashMatch =>
    actual == expected ||
      (match Text.afterHead? expected.toList actual.toList with
       | some ('-' :: _) => true
       | _ => false)
  | .starts => !expected.isEmpty && expected.toList.isPrefixOf actual.toList
  | .ends => !expected.isEmpty && expected.toList.isSuffixOf actual.toList
  | .substring => !expected.isEmpty && Text.occursIn expected.toList actual.toList

end AttributeTest

/-- Whether an attribute with the given value, if present, passes. -/
def AttributeSelector.holdsOf (a : AttributeSelector) : Option String → Bool
  | none => false
  | some actual =>
    if a.caseInsensitive then a.test.passes (Text.foldCase actual) (Text.foldCase a.value)
    else a.test.passes actual a.value

/-- Whether a language tag is in a range: the range itself, or the range and a hyphen in front of
more, up to the case of ASCII letters. The tag is cut where the range would end, counted in bytes. -/
def inLanguageRange (range tag : String) : Bool :=
  let n := range.utf8ByteSize
  ((Text.headBytes? tag n).any (Text.sameFolded · range) &&
      Text.byte? tag n == some '-'.toUInt8) ||
    Text.sameFolded tag range

end StyleEngine
