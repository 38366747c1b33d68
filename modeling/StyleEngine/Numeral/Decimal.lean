import StyleEngine.Text.Ascii

/-!
# Numbers in decimal notation

A real number is written with an optional sign, digits with at most one point among or around them,
and an optional exponent. It is rounded once, to the nearest 32-bit float. The words `inf`,
`infinity` and `nan` are numbers too, in letters of either case.

A whole number is written with an optional plus sign and digits, and has at most 64 bits.
-/

namespace StyleEngine.Numeral

/-- The number written by decimal digits. -/
def ofDigits (cs : List Char) : Nat :=
  cs.foldl (fun n c => 10 * n + (c.toNat - '0'.toNat)) 0

/-- The digits in front, and what follows them. -/
def splitDigits (cs : List Char) : List Char × List Char :=
  (cs.takeWhile Char.isDigit, cs.dropWhile Char.isDigit)

/-- A number with nothing but digits, at least one. -/
def readDigits? (cs : List Char) : Option Nat :=
  if !cs.isEmpty && cs.all Char.isDigit then some (ofDigits cs) else none

/-- Reads what may follow the digits of a number: nothing, or an exponent. -/
def readExponent? : List Char → Option Int
  | [] => some 0
  | c :: cs =>
    if c = 'e' ∨ c = 'E' then
      match cs with
      | '-' :: cs => (readDigits? cs).map fun n => -n
      | '+' :: cs => (readDigits? cs).map fun n => n
      | cs => (readDigits? cs).map fun n => n
    else none

/-- The whole number nearest to `n / d`; halfway between two it is the even one. -/
def nearestWhole (n d : Nat) : Nat :=
  let q := n / d
  let twice := 2 * (n % d)
  if twice < d || (twice == d && q % 2 == 0) then q else q + 1

/-- The 32-bit float nearest to `n / d`. All floats are multiples of `2 ^ -149`, and around `n / d`
they lie `2 ^ unit` such steps apart. The bits of a float count the floats below it, so that the
float after the greatest finite one is infinity. -/
def ofRatio (n d : Nat) : Float32 :=
  let steps := n <<< 149
  let unit := (steps / d).log2 - 23
  let bits := (unit <<< 23) + nearestWhole steps (d <<< unit)
  Float32.ofBits (UInt32.ofNat (min bits 0x7f800000))

/-- The 32-bit float nearest to the number of `digits` times ten to the power `e`. From `10 ^ 40` on
there are only infinities, and below `10 ^ -50` only zeros. -/
def ofScientific (digits : List Char) (e : Int) : Float32 :=
  let digits := digits.dropWhile (· == '0')
  let scale := digits.length + e
  if digits.isEmpty || scale < -50 then 0
  else if 40 < scale then 1 / 0
  else if e < 0 then ofRatio (ofDigits digits) (Nat.pow 10 e.natAbs)
  else ofRatio (ofDigits digits * Nat.pow 10 e.natAbs) 1

/-- Reads a number without a sign. -/
def readMagnitude? (cs : List Char) : Option Float32 := do
  let (whole, rest) := splitDigits cs
  let (fraction, rest) :=
    match rest with
    | '.' :: rest => splitDigits rest
    | rest => ([], rest)
  let e ← readExponent? rest
  if whole.isEmpty && fraction.isEmpty then none
  else some (ofScientific (whole ++ fraction) (e - fraction.length))

/-- Reads a word for a number that is not finite. -/
def readWord? (cs : List Char) : Option Float32 :=
  match Text.foldCase (String.ofList cs) with
  | "inf" | "infinity" => some (1 / 0)
  | "nan" => some (0 / 0)
  | _ => none

def readUnsigned? (cs : List Char) : Option Float32 :=
  readMagnitude? cs <|> readWord? cs

/-- Reads a real number. -/
def readReal? (s : String) : Option Float32 :=
  match s.toList with
  | '-' :: cs => (readUnsigned? cs).map (-·)
  | '+' :: cs => readUnsigned? cs
  | cs => readUnsigned? cs

/-- Reads a whole number of at most 64 bits. -/
def readWhole? (s : String) : Option Nat :=
  let digits :=
    match s.toList with
    | '+' :: cs => cs
    | cs => cs
  (readDigits? digits).filter (· < UInt64.size)

end StyleEngine.Numeral
