import DeepDiffForge.Projection.Notes

/-! Styled text as the cockpit paints it, and its colours. -/

namespace DeepDiffForge.Tui
open Text Slices DeepDiffForge.Core DeepDiffForge.Projection

inductive Color where
  | rgb (red green blue : UInt8)
  | named (name : Str)
  deriving DecidableEq

structure Style where
  fg : Option Color
  bg : Option Color
  bold : Bool
  dim : Bool
  deriving DecidableEq

def plain : Style := { fg := none, bg := none, bold := false, dim := false }

def Style.withFg (style : Style) (color : Color) : Style := { style with fg := some color }

def Style.withBg (style : Style) (color : Color) : Style := { style with bg := some color }

structure Span where
  content : Str
  style : Style
  deriving DecidableEq

abbrev Line := List Span

inductive HighlightClass where
  | keyword | function | type | stringLit | comment | number | constant | attribute | operator
  | variable | plain
  deriving DecidableEq

structure Palette where
  fg : Color
  dim : Color
  border : Color
  accent : Color
  selectionBg : Color
  added : Color
  addedBg : Color
  removed : Color
  removedBg : Color
  note : Color
  grounded : Color
  ungrounded : Color
  keyword : Color
  function : Color
  type : Color
  string : Color
  comment : Color
  number : Color
  operator : Color

def Palette.classColor (palette : Palette) : HighlightClass → Color
  | .keyword => palette.keyword
  | .function => palette.function
  | .type => palette.type
  | .stringLit => palette.string
  | .comment => palette.comment
  | .number | .constant | .attribute => palette.number
  | .operator => palette.operator
  | .variable | .plain => palette.fg

def Palette.mono (color : Color) : Palette :=
  ⟨color, color, color, color, color, color, color, color, color, color, color, color, color,
    color, color, color, color, color, color⟩

structure HighlightSpan where
  start : Nat
  stop : Nat
  cls : HighlightClass

/-- `text.get(start..stop)`. -/
def textGet (text : Str) (start stop : Nat) : Option Str :=
  let bytes := Utf8.encode text
  if start ≤ stop ∧ stop ≤ bytes.length ∧ isCharBoundary bytes start ∧ isCharBoundary bytes stop then
    Utf8.decode ((bytes.take stop).drop start)
  else none

/-- A single escaped span for untrusted text. -/
def safeSpan (raw : Str) (style : Style) : Span := ⟨expandTabs (displaySafe raw), style⟩

def dimLine (text : Str) (palette : Palette) : Line := [⟨text, plain.withFg palette.dim⟩]

def colorFrom (text : Str) (palette : Palette) (base : Style) : Nat → List HighlightSpan → Line
  | cursor, [] =>
      if cursor < byteLength text then
        (textGet text cursor (byteLength text)).toList.map (⟨·, base⟩)
      else []
  | cursor, span :: spans =>
      if span.start < cursor ∨ span.stop < span.start ∨ byteLength text < span.stop then
        colorFrom text palette base cursor spans
      else
        (if cursor < span.start then (textGet text cursor span.start).toList.map (⟨·, base⟩)
          else []) ++
        match textGet text span.start span.stop with
        | some token =>
            ⟨token, base.withFg (palette.classColor span.cls)⟩ ::
              colorFrom text palette base span.stop spans
        | none => colorFrom text palette base cursor spans

/-- One source line in themed spans; a line that needs escapes stays uncoloured. -/
def themedSpans (highlight : Str → List HighlightSpan) (raw : Str) (palette : Palette)
    (base : Style) : Line :=
  let raw := expandTabs raw
  if raw.any fun c => isTerminalUnsafe c || isBidiOrInvisible c then [⟨displaySafe raw, base⟩]
  else if (highlight raw).isEmpty then [⟨raw, base⟩]
  else colorFrom raw palette base 0 (highlight raw)

end DeepDiffForge.Tui
