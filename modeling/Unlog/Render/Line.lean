import Unlog.Pattern.Requirements
import Unlog.Render.Time

/-! Rendering one record through one sink entry. A `const char*` file name is an address;
`cstr` gives the unchanging C string behind it. -/

namespace Unlog.Render

open Pattern

structure SourceLoc where
  filename : Option ℕ
  line : ℤ
  deriving DecidableEq, Repr

structure LogEntry where
  loggerName : Text
  level : LogLevel
  sourceLocation : SourceLoc
  message : Text
  timestamp : UInt64
  deriving DecidableEq, Repr

/-- `sink` is the `shared_ptr`, empty after shutdown. -/
structure SinkEntry where
  sink : Option ℕ
  pattern : PatternProgram
  renderBuffer : Text := []
  color : Bool := false
  requirements : TimeRequirements := .none
  deriving DecidableEq, Repr

def ansiReset : Text := 27 :: ascii "[0m"

def colorForLevel : LogLevel → Text
  | .trace => 27 :: ascii "[90m"
  | .debug => 27 :: ascii "[36m"
  | .info => 27 :: ascii "[32m"
  | .warn => 27 :: ascii "[33m"
  | .err => 27 :: ascii "[31m"
  | .critical => 27 :: ascii "[1;31m"
  | .off => 27 :: ascii "[2m"

def digit (n : ℕ) : UInt8 := '0'.toUInt8 + UInt8.ofNat (n % 10)

/-- `append_two_digits`. -/
def twoDigits (value : ℕ) : Text := [digit (value / 10), digit value]

/-- `append_three_digits`. -/
def threeDigits (value : ℕ) : Text := [digit (value / 100), digit (value / 10), digit value]

/-- `source_basename_resolver` with its `void*` context passed as state. -/
abbrev BasenameResolver (σ : Type) := σ → ℕ → Text × σ

section Render

variable {σ : Type} (cstr : ℕ → Text) (resolveBasename : Option (BasenameResolver σ))
  (sink : SinkEntry) (rec : LogEntry) (tm : Tm) (millis : ℕ) (elapsed : Text)

/-- The case `source_file` of the switch. -/
def sourceFileText (context : σ) : Text × σ :=
  match rec.sourceLocation.filename with
  | none => ([], context)
  | some filename =>
    match resolveBasename with
    | some resolve => resolve context filename
    | none => (cstr filename, context)

/-- What the `switch` of `render_pattern` appends for one piece. -/
def pieceText (piece : PatternPiece) (context : σ) : Text × σ :=
  match piece.token with
  | .literal => (slice sink.pattern.text piece.offset piece.size, context)
  | .percent => ([percentSign], context)
  | .hour => (twoDigits tm.tmHour, context)
  | .minute => (twoDigits tm.tmMin, context)
  | .second => (twoDigits tm.tmSec, context)
  | .millis => (threeDigits millis, context)
  | .elapsed => (elapsed, context)
  | .loggerName => (rec.loggerName, context)
  | .level => (logLevelString rec.level, context)
  | .sourceFile => sourceFileText cstr resolveBasename rec context
  | .sourceLine => (signedDecimal rec.sourceLocation.line, context)
  | .message => (rec.message, context)
  | .colorStart => (if sink.color then colorForLevel rec.level else [], context)
  | .colorEnd => (if sink.color then ansiReset else [], context)

/-- The loop over the pieces. -/
def renderPieces : List PatternPiece → Text → σ → Text × σ
  | [], out, context => (out, context)
  | piece :: pieces, out, context =>
    let appended := pieceText cstr resolveBasename sink rec tm millis elapsed piece context
    renderPieces pieces (out ++ appended.1) appended.2

/-- The rendered line is left in the entry's `render_buffer`, which the returned view names. -/
def renderPattern (context : σ) : SinkEntry × σ :=
  -- `out.clear()`; the reserved capacity is not observable
  let rendered := renderPieces cstr resolveBasename sink rec tm millis elapsed
    sink.pattern.pieces [] context
  ({ sink with renderBuffer := rendered.1 ++ [newline] }, rendered.2)

/-! ## The reference interpretation of a pattern text -/

/-- The field a known character names; an unknown one stands for itself and its percent. -/
def interpretToken (token : UInt8) (context : σ) : Text × σ :=
  match Char.ofUInt8 token with
  | '%' => ([percentSign], context)
  | 'H' => (twoDigits tm.tmHour, context)
  | 'M' => (twoDigits tm.tmMin, context)
  | 'S' => (twoDigits tm.tmSec, context)
  | 'e' => (threeDigits millis, context)
  | '*' => (elapsed, context)
  | 'n' => (rec.loggerName, context)
  | 'l' => (logLevelString rec.level, context)
  | 'g' => sourceFileText cstr resolveBasename rec context
  | '#' => (signedDecimal rec.sourceLocation.line, context)
  | 'v' => (rec.message, context)
  | '^' => (if sink.color then colorForLevel rec.level else [], context)
  | '$' => (if sink.color then ansiReset else [], context)
  | _ => ([percentSign, token], context)

/-- Read the text from left to right: `%c` is a token, any other byte and a last lone
percent stand for themselves. -/
def interpret : Text → σ → Text × σ
  | [], context => ([], context)
  | c :: rest, context =>
    if c ≠ percentSign then
      let next := interpret rest context
      (c :: next.1, next.2)
    else
      match rest with
      | [] => ([percentSign], context)
      | token :: rest =>
        let field := interpretToken cstr resolveBasename sink rec tm millis elapsed token context
        let next := interpret rest field.2
        (field.1 ++ next.1, next.2)

end Render

end Unlog.Render
