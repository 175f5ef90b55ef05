import Unlog.Types

/-! Patterns, their pieces, and the two compile-time scanners of `format.hpp`.
The cursor `i` of a C++ loop is kept as a number beside the text left to read. -/

namespace Unlog.Pattern

inductive PatternToken where
  | literal | percent | hour | minute | second | millis | elapsed
  | loggerName | level | sourceFile | sourceLine | message | colorStart | colorEnd
  deriving DecidableEq, Repr

structure PatternPiece where
  token : PatternToken := .literal
  offset : ℕ := 0
  size : ℕ := 0
  deriving DecidableEq, Repr

structure PatternProgram where
  text : Text
  pieces : List PatternPiece
  deriving DecidableEq, Repr

structure DecodedPatternToken where
  token : PatternToken := .literal
  known : Bool := false
  deriving DecidableEq, Repr

def decodePatternToken (token : UInt8) : DecodedPatternToken :=
  match Char.ofUInt8 token with
  | '%' => ⟨.percent, true⟩
  | 'H' => ⟨.hour, true⟩
  | 'M' => ⟨.minute, true⟩
  | 'S' => ⟨.second, true⟩
  | 'e' => ⟨.millis, true⟩
  | '*' => ⟨.elapsed, true⟩
  | 'n' => ⟨.loggerName, true⟩
  | 'l' => ⟨.level, true⟩
  | 'g' => ⟨.sourceFile, true⟩
  | '#' => ⟨.sourceLine, true⟩
  | 'v' => ⟨.message, true⟩
  | '^' => ⟨.colorStart, true⟩
  | '$' => ⟨.colorEnd, true⟩
  | _ => {}

/-! ## `pattern_piece_count` -/

/-- The loop of `pattern_piece_count`; returns `count` and `literal_begin` at its exit. -/
def pieceCountLoop : Text → ℕ → ℕ → ℕ → ℕ × ℕ
  | [], _, count, literalBegin => (count, literalBegin)
  | c :: rest, i, count, literalBegin =>
    if c ≠ percentSign then pieceCountLoop rest (i + 1) count literalBegin
    else
      let count := count + (if literalBegin ≠ i then 1 else 0)
      match rest with
      -- a trailing percent is one more literal, and the loop breaks
      | [] => (count + 1, i + 1)
      | _ :: rest => pieceCountLoop rest (i + 2) (count + 1) (i + 2)

def patternPieceCount (pattern : Text) : ℕ :=
  let exit := pieceCountLoop pattern 0 0 0
  exit.1 + (if exit.2 ≠ pattern.length then 1 else 0)

/-! ## `compile_pattern` -/

/-- The `std::array` under construction and the next index to write. -/
structure PieceArray where
  pieces : List PatternPiece
  output : ℕ
  deriving DecidableEq, Repr

/-- `pieces[output++] = piece`; a write past the array is no constant expression. -/
def PieceArray.emit (array : PieceArray) (piece : PatternPiece) : Option PieceArray :=
  if array.output < array.pieces.length then
    some ⟨array.pieces.set array.output piece, array.output + 1⟩
  else none

def PieceArray.emitLiteral (array : PieceArray) (start size : ℕ) : Option PieceArray :=
  if size ≠ 0 then array.emit ⟨.literal, start, size⟩ else some array

/-- The piece written for `%token` at offset `i`. -/
def tokenPiece (token : UInt8) (i : ℕ) : PatternPiece :=
  let decoded := decodePatternToken token
  if decoded.known then ⟨decoded.token, 0, 0⟩ else ⟨.literal, i, 2⟩

/-- The loop of `compile_pattern`; returns the array and `literal_begin` at its exit. -/
def compileLoop : Text → ℕ → ℕ → PieceArray → Option (PieceArray × ℕ)
  | [], _, literalBegin, array => some (array, literalBegin)
  | c :: rest, i, literalBegin, array =>
    if c ≠ percentSign then compileLoop rest (i + 1) literalBegin array
    else
      (array.emitLiteral literalBegin (i - literalBegin)).bind fun array =>
        match rest with
        | [] => (array.emitLiteral i 1).map (·, i + 1)
        | token :: rest =>
          (array.emit (tokenPiece token i)).bind (compileLoop rest (i + 2) (i + 2))

/-- `none` when a write falls outside the array sized by `patternPieceCount`. -/
def compilePattern (text : Text) : Option PieceArray :=
  (compileLoop text 0 0 ⟨List.replicate (patternPieceCount text) {}, 0⟩).bind fun exit =>
    exit.1.emitLiteral exit.2 (text.length - exit.2)

example : (compilePattern (ascii "a%%%q%")).map PieceArray.pieces =
    some [⟨.literal, 0, 1⟩, ⟨.percent, 0, 0⟩, ⟨.literal, 3, 2⟩, ⟨.literal, 5, 1⟩] := by
  decide +kernel

/-- `format_pattern<Pattern>::program()`. -/
def formatPatternProgram (text : Text) : PatternProgram :=
  ⟨text, ((compilePattern text).map PieceArray.pieces).getD []⟩

end Unlog.Pattern
