import StyleEngine.Computation.Value

/-!
# What properties accept

Whether a property accepts a value hangs on the kind of the value alone, and one table says which
kinds a property accepts. What a value is computed from besides has no say.

## Main definitions

* `ValueKind`: the kinds of specified values.
* `Property.accepted`: the kinds of value that a property accepts.

## Main statements

* `Property.isSome_compute?_eq`: the values that are computed are those that the table accepts.
* `Property.accepts_percentage_iff`, `Property.accepts_length_iff`: where percentages are accepted,
  and where other lengths are.
-/

namespace StyleEngine

/-- The kinds of specified values. Percentages are told apart from other lengths. -/
inductive ValueKind
  | inherit
  | initial
  | auto
  | none
  | normal
  | length
  | percentage
  | number
  | integer
  | color
  | url
  | display
  | position
  | floating
  | clear
  | overflow
  | visibility
  | whiteSpace
  | textAlign
  | textTransform
  | direction
  | borderStyle
  | boxSizing
  | verticalAlign
  | listStyleType
  | listStylePosition
  | tableLayout
  | borderCollapse
  | captionSide
  | emptyCells
  | cursor
  | wordWrap
  | textDecoration
  | fontStyle
  | fontVariant
  | fontWeight
  | fontSize
  | fontFamily
  | shadows
  | rect
  | content
  | counters
  | quotes
deriving DecidableEq, Repr

def SpecifiedLength.kind (l : SpecifiedLength) : ValueKind :=
  match l.unit with
  | .percent => .percentage
  | _ => .length

def Value.kind : Value → ValueKind
  | inherit => .inherit
  | initial => .initial
  | auto => .auto
  | none => .none
  | normal => .normal
  | length l => l.kind
  | number _ => .number
  | integer _ => .integer
  | color _ => .color
  | url _ => .url
  | display _ => .display
  | position _ => .position
  | floating _ => .floating
  | clear _ => .clear
  | overflow _ => .overflow
  | visibility _ => .visibility
  | whiteSpace _ => .whiteSpace
  | textAlign _ => .textAlign
  | textTransform _ => .textTransform
  | direction _ => .direction
  | borderStyle _ => .borderStyle
  | boxSizing _ => .boxSizing
  | verticalAlign _ => .verticalAlign
  | listStyleType _ => .listStyleType
  | listStylePosition _ => .listStylePosition
  | tableLayout _ => .tableLayout
  | borderCollapse _ => .borderCollapse
  | captionSide _ => .captionSide
  | emptyCells _ => .emptyCells
  | cursor _ => .cursor
  | wordWrap _ => .wordWrap
  | textDecoration _ => .textDecoration
  | fontStyle _ => .fontStyle
  | fontVariant _ => .fontVariant
  | fontWeight _ => .fontWeight
  | fontSize _ => .fontSize
  | fontFamily _ => .fontFamily
  | shadows _ => .shadows
  | rect _ => .rect
  | content _ => .content
  | counters _ => .counters
  | quotes _ => .quotes

namespace Property

/-- The kinds of value that a property accepts, besides `inherit` and `initial`. -/
def accepted : Property → List ValueKind
  | color | borderColor _ | backgroundColor | outlineColor => [.color]
  | fontFamily => [.fontFamily]
  | fontSize => [.fontSize, .length, .percentage]
  | fontStyle => [.fontStyle]
  | fontVariant => [.fontVariant]
  | fontWeight => [.fontWeight, .normal]
  | lineHeight => [.normal, .number, .length, .percentage]
  | letterSpacing | wordSpacing => [.normal, .length]
  | textIndent | padding _ => [.length, .percentage]
  | textAlign => [.textAlign]
  | textTransform => [.textTransform]
  | textShadow | boxShadow => [.none, .shadows]
  | direction => [.direction]
  | whiteSpace => [.whiteSpace]
  | wordWrap => [.wordWrap]
  | visibility => [.visibility]
  | listStyleType => [.listStyleType, .none]
  | listStylePosition => [.listStylePosition]
  | listStyleImage | backgroundImage => [.none, .url]
  | borderCollapse => [.borderCollapse]
  | borderSpacingHorizontal | borderSpacingVertical | borderWidth _ | outlineWidth => [.length]
  | captionSide => [.captionSide]
  | emptyCells => [.emptyCells]
  | cursor => [.cursor, .auto]
  | quotes => [.quotes, .none]
  | widows | orphans => [.integer]
  | display => [.display]
  | position => [.position]
  | float => [.floating, .none]
  | clear => [.clear, .none]
  | overflowX | overflowY => [.overflow]
  | tableLayout => [.tableLayout, .auto]
  | zIndex => [.integer, .auto]
  | width | height | minWidth | minHeight | maxWidth | maxHeight | offset _ | margin _ =>
    [.auto, .none, .length, .percentage]
  | verticalAlign => [.verticalAlign, .length, .percentage]
  | boxSizing => [.boxSizing]
  | borderStyle _ | outlineStyle => [.borderStyle, .none]
  | clip => [.auto, .rect]
  | textDecoration => [.textDecoration, .none]
  | content => [.normal, .none, .content]
  | counterIncrement | counterReset => [.counters, .none]
  | opacity => [.number]

/-- Whether the property accepts the value. -/
def Accepts (p : Property) (v : Value) : Prop :=
  v.kind ∈ p.accepted

instance (p : Property) (v : Value) : Decidable (p.Accepts v) :=
  inferInstanceAs (Decidable (v.kind ∈ p.accepted))

/-- A property computes the values of the kinds that it accepts, in whatever context. -/
theorem isSome_compute?_eq (c : ValueContext) (p : Property) (v : Value) :
    (p.compute? c v).isSome = p.accepted.contains v.kind := by
  cases v with
  | length l =>
    -- Here the answer hangs on the unit too.
    obtain ⟨value, unit⟩ := l
    cases unit <;> cases p <;> rfl
  | _ => cases p <;> rfl

/-- Whether a property accepts a value does not hang on the context. -/
theorem isSome_compute? (c c' : ValueContext) (p : Property) (v : Value) :
    (p.compute? c v).isSome = (p.compute? c' v).isSome := by
  rw [isSome_compute?_eq, isSome_compute?_eq]

theorem compute?_eq_none_iff {c : ValueContext} {p : Property} {v : Value} :
    p.compute? c v = none ↔ ¬p.Accepts v := by
  rw [← Option.not_isSome_iff_eq_none, isSome_compute?_eq, List.contains_iff_mem, Accepts]

/-- The properties that accept a percentage. -/
def takingPercentages : List Property :=
  [fontSize, lineHeight, textIndent, verticalAlign, width, height, minWidth, minHeight, maxWidth,
    maxHeight] ++ Side.all.map offset ++ Side.all.map margin ++ Side.all.map padding

/-- The properties that accept a length and no percentage. -/
def takingPlainLengths : List Property :=
  [letterSpacing, wordSpacing, borderSpacingHorizontal, borderSpacingVertical, outlineWidth] ++
    Side.all.map borderWidth

theorem accepts_percentage_iff {p : Property} {x : Float32} :
    p.Accepts (.length ⟨x, .percent⟩) ↔ p ∈ takingPercentages := by
  have hkind : Value.kind (.length ⟨x, .percent⟩) = .percentage := rfl
  rw [Accepts, hkind]
  cases p with
  | offset s | margin s | padding s | borderWidth s | borderStyle s | borderColor s =>
    cases s <;> decide
  | _ => decide

theorem accepts_length_iff {p : Property} {x : Float32} {unit : LengthUnit}
    (h : unit ≠ .percent) :
    p.Accepts (.length ⟨x, unit⟩) ↔ p ∈ takingPercentages ∨ p ∈ takingPlainLengths := by
  have hkind : Value.kind (.length ⟨x, unit⟩) = .length := by
    cases unit with
    | percent => exact absurd rfl h
    | _ => rfl
  rw [Accepts, hkind]
  cases p with
  | offset s | margin s | padding s | borderWidth s | borderStyle s | borderColor s =>
    cases s <;> decide
  | _ => decide

end Property

end StyleEngine
