import StyleEngine.Value.Color
import StyleEngine.Value.Keyword
import StyleEngine.Value.Length

/-!
# Composite computed values
-/

namespace StyleEngine

/-- A computed `vertical-align`. -/
inductive VerticalAlign
  | keyword (align : BaselineAlign)
  | length (offset : Length)
deriving BEq

instance : Inhabited VerticalAlign := ⟨.keyword .baseline⟩

/-- A computed `line-height`. -/
inductive LineHeight
  | normal
  /-- A multiple of the font size, inherited as it is. -/
  | number (factor : Float32)
  | fixed (px : Float32)
deriving BEq

instance : Inhabited LineHeight := ⟨.normal⟩

/-- One computed shadow. -/
structure Shadow where
  x : Float32
  y : Float32
  blur : Float32
  color : Color
deriving BEq

/-- One item of generated content. -/
inductive ContentItem
  | text (text : String)
  | url (url : String)
  | attribute (name : String)
  | counter (name : String) (style : ListStyleType)
  | openQuote
  | closeQuote
deriving DecidableEq, Repr

/-- A counter and the amount by which it is incremented or to which it is reset. -/
structure CounterDirective where
  name : String
  value : Int32
deriving DecidableEq, Repr

end StyleEngine
