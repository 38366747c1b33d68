import StyleEngine.Numeral.Decimal
import StyleEngine.Text.Blank
import StyleEngine.Value.Length

/-!
# Settings

What can be set about the computation of styles, and the names under which an environment sets it.
A setting that is absent or makes no sense keeps its default.
-/

namespace StyleEngine

structure Settings where
  /-- The pixels of a medium font. -/
  defaultFontSize : Float32
  /-- No computed font is smaller. -/
  minimumFontSize : Float32
  /-- Whether alike siblings share their groups. -/
  sharing : Bool
  /-- How many siblings back an alike one is looked for. -/
  scanLimit : Nat
deriving BEq

namespace Settings

def default : Settings := ⟨16, 0, true, 10⟩

/-- Reads the settings from the variables of an environment. A size has to be finite; that of a
medium font has to be positive and the least one not negative. Sharing is off only for `0`. -/
def ofEnvironment (lookup : String → Option String) : Settings :=
  let read {α : Type} (parse : String → Option α) (name : String) : Option α :=
    (lookup name).bind fun text => parse (Text.trim text)
  let defaultSize := (read Numeral.readReal? "RESTYLE_DEFAULT_FONT_SIZE").filter
    fun size => size.isFinite && 0 < size
  let minimumSize := (read Numeral.readReal? "RESTYLE_MINIMUM_FONT_SIZE").filter
    fun size => size.isFinite && 0 ≤ size
  { defaultFontSize := defaultSize.getD default.defaultFontSize
    minimumFontSize := minimumSize.getD default.minimumFontSize
    sharing := (read (fun text => some (text != "0")) "RESTYLE_SHARING").getD default.sharing
    scanLimit := (read Numeral.readWhole? "RESTYLE_SHARING_SCAN_LIMIT").getD default.scanLimit }

/-- The font size that a specified one comes to. -/
def clampFontSize (s : Settings) (specified : Float32) : Float32 :=
  maxPx specified s.minimumFontSize

end Settings

end StyleEngine
