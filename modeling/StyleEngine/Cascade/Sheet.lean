import StyleEngine.Cascade.Level
import StyleEngine.Matching.Outcome
import StyleEngine.Property.Declaration
import StyleEngine.Text.Blank

/-!
# Style sheets
-/

namespace StyleEngine

/-- A list of selectors and the declarations that they apply. -/
structure Rule where
  selectors : List Complex
  declarations : DeclarationBlock

/-- Rules from one source, in order. -/
structure Sheet where
  origin : Origin
  rules : List Rule
  /-- The media for which the sheet is meant; without a list it is for all. -/
  media : Option (List String)

/-- The medium on which a document is shown. -/
structure Medium where
  name : String

namespace Medium

def screen : Medium := ⟨"screen"⟩

/-- Whether a list of media has the medium: it names the medium or `all`, up to blanks around the
name and the case of ASCII letters, or it is empty. -/
def isIn (m : Medium) (queries : List String) : Bool :=
  queries.isEmpty || queries.any fun query =>
    let query := Text.trim query
    Text.sameFolded query "all" || Text.sameFolded query m.name

end Medium

/-- The sheets of one document, in order. -/
structure SheetSet where
  mode : DocumentMode
  sheets : List Sheet

namespace SheetSet

/-- The sheets that take part in the cascade on a medium. The sheet for quirks takes part in quirks
mode only. -/
def active (set : SheetSet) (m : Medium) : List Sheet :=
  set.sheets.filter fun sheet =>
    (sheet.origin != .userAgentQuirks || set.mode == .quirks) && sheet.media.all m.isIn

end SheetSet

end StyleEngine
