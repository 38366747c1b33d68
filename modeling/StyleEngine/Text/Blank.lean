/-!
# Blanks of Unicode

Media queries and settings are trimmed of every character with the Unicode property `White_Space`,
which is wider than the blanks of markup.
-/

namespace StyleEngine.Text

/-- Whether a character has the Unicode property `White_Space`: twenty-five code points. -/
def isBlank (c : Char) : Bool :=
  let n := c.toNat
  (9 ≤ n && n ≤ 13) || n == 0x20 || n == 0x85 || n == 0xA0 || n == 0x1680 ||
    (0x2000 ≤ n && n ≤ 0x200A) || n == 0x2028 || n == 0x2029 || n == 0x202F || n == 0x205F ||
    n == 0x3000

/-- The text without the blanks at its two ends. -/
def trim (s : String) : String :=
  String.ofList ((s.toList.dropWhile isBlank).reverse.dropWhile isBlank).reverse

end StyleEngine.Text
