import StyleEngine.Cascade.Sheet

/-!
# The sheets of the user agent

The rules that apply to HTML elements before any author speaks, and the few more that apply to
documents in quirks mode.

## Main definitions

* `UserAgent.sheet`: the default sheet.
* `UserAgent.quirksSheet`: the sheet for quirks mode.
* `SheetSet.withDefaults`: both sheets in front of others.
-/

namespace StyleEngine.UserAgent

/-! ## Building rules -/

/-- One selector for each tag. -/
def tags (names : List String) : List Complex :=
  names.map fun name => .ofCompound [.tag name]

/-- An element with an attribute of a given value. -/
def tagged (tag attr value : String) : Complex :=
  .ofCompound [.tag tag, .attribute ⟨attr, .equals, value, false⟩]

/-- A rule without importance. -/
def rule (selectors : List Complex) (declarations : List (Property × Value)) : Rule where
  selectors := selectors
  declarations := declarations.map fun (p, v) => ⟨.known p, v, false⟩

/-- The same value on every side. -/
def perSide (property : Side → Property) (v : Value) : List (Property × Value) :=
  Side.all.map fun side => (property side, v)

def px (x : Float32) : Value := .length ⟨x, .px⟩
def em (x : Float32) : Value := .length ⟨x, .em⟩

/-! ## Elements by kind -/

def blockTags : List String :=
  ["html", "body", "div", "p", "h1", "h2", "h3", "h4", "h5", "h6", "ul", "ol", "dl", "dt", "dd",
    "blockquote", "pre", "form", "fieldset", "legend", "section", "article", "aside", "header",
    "footer", "main", "nav", "address", "figure", "figcaption", "details", "summary", "dialog",
    "hr", "center"]

/-- Elements that are never shown. -/
def hiddenTags : List String :=
  ["head", "meta", "title", "link", "style", "script", "base", "template", "noscript"]

def tableTags : List (String × Display) :=
  [("table", .table), ("thead", .tableHeaderGroup), ("tbody", .tableRowGroup),
    ("tfoot", .tableFooterGroup), ("tr", .tableRow), ("td", .tableCell), ("th", .tableCell),
    ("col", .tableColumn), ("colgroup", .tableColumnGroup), ("caption", .tableCaption)]

/-- Headings, with their sizes as multiples of the size around them. -/
def headingSizes : List (String × Float32) :=
  [("h1", 2.0), ("h2", 1.5), ("h3", 1.17), ("h4", 1.0), ("h5", 0.83), ("h6", 0.67)]

/-! ## Rules -/

def displayRules : List Rule :=
  [rule (tags blockTags) [(.display, .display .block)],
    rule (tags hiddenTags) [(.display, .display .none)],
    rule (tags ["li"]) [(.display, .display .listItem)]] ++
  tableTags.map fun (tag, display) => rule (tags [tag]) [(.display, .display display)]

def boxRules : List Rule :=
  [rule (tags ["td", "th"]) (perSide .padding (px 1)),
    rule (tags ["thead", "tbody", "tfoot", "tr", "td", "th"])
      [(.verticalAlign, .verticalAlign .middle)],
    rule (tags ["body"]) (perSide .margin (px 8)),
    rule (tags ["ul", "ol"]) [(.padding .left, px 40)],
    rule (tags ["ol"]) [(.listStyleType, .listStyleType .decimal)]]

def textRules : List Rule :=
  (headingSizes.map fun (tag, size) =>
    rule (tags [tag]) [(.fontWeight, .fontWeight (.weight 700)), (.fontSize, em size)]) ++
  [rule (tags ["b", "strong", "th"]) [(.fontWeight, .fontWeight .bolder)],
    rule (tags ["i", "em", "cite", "var", "address"]) [(.fontStyle, .fontStyle .italic)],
    rule (tags ["u", "ins"])
      [(.textDecoration, .textDecoration (.ofLines [.underline]))],
    rule (tags ["s", "strike", "del"])
      [(.textDecoration, .textDecoration (.ofLines [.lineThrough]))],
    rule (tags ["small"]) [(.fontSize, .fontSize .smaller)],
    rule (tags ["big"]) [(.fontSize, .fontSize .larger)],
    rule (tags ["pre", "xmp", "listing", "plaintext"]) [(.whiteSpace, .whiteSpace .pre)]]

/-- A box with a solid border of the given width, sized from its border. -/
def bordered (extra : List (Property × Value)) (width : Float32) : List (Property × Value) :=
  [(.display, .display .inlineBlock), (.boxSizing, .boxSizing .borderBox)] ++ extra ++
    perSide .borderWidth (px width) ++ perSide .borderStyle (.borderStyle .solid)

def formRules : List Rule :=
  [rule (tags ["input"]) (bordered [] 2),
    rule (tags ["button"]) (bordered [(.minHeight, px 20)] 1),
    rule (tags ["textarea"])
      (bordered [] 2 ++ perSide .padding (px 2) ++
        [(.overflowX, .overflow .auto), (.overflowY, .overflow .auto),
          (.whiteSpace, .whiteSpace .preWrap)]),
    rule [tagged "input" "type" "checkbox", tagged "input" "type" "radio"]
      (perSide .borderWidth (px 0) ++ perSide .padding (px 0))]

/-! ## Sheets -/

/-- The default sheet. -/
def sheet : Sheet where
  origin := .userAgent
  rules := displayRules ++ boxRules ++ textRules ++ formRules
  media := none

/-- The sheet for quirks mode: tables take no text properties from around them, and aligned images
keep a distance. -/
def quirksSheet : Sheet where
  origin := .userAgentQuirks
  rules :=
    [rule (tags ["table"])
      [(.whiteSpace, .whiteSpace .normal), (.lineHeight, .normal),
        (.fontWeight, .fontWeight (.weight 400)), (.fontSize, .fontSize .medium),
        (.fontStyle, .fontStyle .normal)],
      rule [tagged "img" "align" "left"] [(.margin .right, px 3)],
      rule [tagged "img" "align" "right"] [(.margin .left, px 3)]]
  media := none

end StyleEngine.UserAgent

namespace StyleEngine

/-- The sheets of the user agent in front of others. -/
def SheetSet.withDefaults (mode : DocumentMode) (sheets : List Sheet) : SheetSet :=
  ⟨mode, UserAgent.sheet :: UserAgent.quirksSheet :: sheets⟩

end StyleEngine
