import Unlog.Pattern.Program

/-! # Correctness of pattern compilation

Both scanners are compared with one description of the text as a list of lexemes
and with the plain list of pieces a scan emits. -/

namespace Unlog.Pattern

/-! ## Lexemes -/

/-- A scanner reads a plain byte, a percent with the byte after it, or a last lone percent. -/
@[elab_as_elim]
theorem scan_induct {motive : Text → Prop} (nil : motive [])
    (plain : ∀ c rest, c ≠ percentSign → motive rest → motive (c :: rest))
    (lone : motive [percentSign])
    (token : ∀ t rest, motive rest → motive (percentSign :: t :: rest)) :
    ∀ text, motive text
  | [] => nil
  | c :: rest =>
    if h : c = percentSign then
      match rest with
      | [] => h ▸ lone
      | t :: rest => h ▸ token t rest (scan_induct nil plain lone token rest)
    else plain c rest h (scan_induct nil plain lone token rest)

/-- What a reader of the pattern language sees from left to right. -/
inductive Lexeme where
  | plain (c : UInt8)
  | token (c : UInt8)
  | lonePercent
  deriving DecidableEq, Repr

def lexemes : Text → List Lexeme
  | [] => []
  | c :: rest =>
    if c ≠ percentSign then .plain c :: lexemes rest
    else
      match rest with
      | [] => [.lonePercent]
      | token :: rest => .token token :: lexemes rest

@[simp] theorem lexemes_nil : lexemes [] = [] := rfl

@[simp] theorem lexemes_plain {c : UInt8} (h : c ≠ percentSign) (rest : Text) :
    lexemes (c :: rest) = .plain c :: lexemes rest := by
  rw [lexemes.eq_def]
  exact if_pos h

@[simp] theorem lexemes_lone : lexemes [percentSign] = [.lonePercent] := rfl

@[simp] theorem lexemes_token (t : UInt8) (rest : Text) :
    lexemes (percentSign :: t :: rest) = .token t :: lexemes rest := rfl

/-! ## The pieces of a scan -/

/-- `emit_literal` skips empty literals. -/
def literalPieces (start size : ℕ) : List PatternPiece :=
  if size ≠ 0 then [⟨.literal, start, size⟩] else []

/-- The pieces emitted from the cursor `i` on, with a literal open since `literalBegin`. -/
def scanPieces : Text → ℕ → ℕ → List PatternPiece
  | [], i, literalBegin => literalPieces literalBegin (i - literalBegin)
  | c :: rest, i, literalBegin =>
    if c ≠ percentSign then scanPieces rest (i + 1) literalBegin
    else
      literalPieces literalBegin (i - literalBegin) ++
        match rest with
        | [] => [⟨.literal, i, 1⟩]
        | token :: rest => tokenPiece token i :: scanPieces rest (i + 2) (i + 2)

section Equations

variable {c : UInt8} (t : UInt8) (rest : Text) (i literalBegin : ℕ)

theorem scanPieces_plain (h : c ≠ percentSign) :
    scanPieces (c :: rest) i literalBegin = scanPieces rest (i + 1) literalBegin := by
  rw [scanPieces.eq_def]
  exact if_pos h

theorem scanPieces_lone :
    scanPieces [percentSign] i literalBegin =
      literalPieces literalBegin (i - literalBegin) ++ [⟨.literal, i, 1⟩] := rfl

theorem scanPieces_token :
    scanPieces (percentSign :: t :: rest) i literalBegin =
      literalPieces literalBegin (i - literalBegin) ++
        tokenPiece t i :: scanPieces rest (i + 2) (i + 2) := rfl

theorem pieceCountLoop_plain (h : c ≠ percentSign) (count : ℕ) :
    pieceCountLoop (c :: rest) i count literalBegin =
      pieceCountLoop rest (i + 1) count literalBegin := by
  rw [pieceCountLoop.eq_def]
  exact if_pos h

theorem pieceCountLoop_token (count : ℕ) :
    pieceCountLoop (percentSign :: t :: rest) i count literalBegin =
      pieceCountLoop rest (i + 2) (count + (if literalBegin ≠ i then 1 else 0) + 1) (i + 2) :=
  rfl

theorem compileLoop_plain (h : c ≠ percentSign) (array : PieceArray) :
    compileLoop (c :: rest) i literalBegin array =
      compileLoop rest (i + 1) literalBegin array := by
  rw [compileLoop.eq_def]
  exact if_pos h

end Equations

theorem length_literalPieces {start stop : ℕ} (h : start ≤ stop) :
    (literalPieces start (stop - start)).length = if start ≠ stop then 1 else 0 := by
  unfold literalPieces
  by_cases he : start = stop
  · simp [he]
  · have hs : stop - start ≠ 0 := by omega
    simp [he, hs]

/-- The counting loop counts exactly the pieces of the scan. -/
theorem pieceCountLoop_eq (rest : Text) (i literalBegin count : ℕ) (h : literalBegin ≤ i) :
    (pieceCountLoop rest i count literalBegin).1 +
        (if (pieceCountLoop rest i count literalBegin).2 ≠ i + rest.length then 1 else 0) =
      count + (scanPieces rest i literalBegin).length := by
  induction rest using scan_induct generalizing i literalBegin count with
  | nil => rw [pieceCountLoop, scanPieces, length_literalPieces h, List.length_nil, Nat.add_zero]
  | plain c rest hc ih =>
      have hlen : i + (c :: rest).length = i + 1 + rest.length := by
        simp only [List.length_cons]; omega
      rw [pieceCountLoop_plain _ _ _ hc, scanPieces_plain _ _ _ hc, hlen]
      exact ih (i + 1) literalBegin count (by omega)
  | lone => simp [pieceCountLoop, scanPieces_lone, length_literalPieces h, Nat.add_assoc]
  | token t rest ih =>
      have hlen : i + (percentSign :: t :: rest).length = i + 2 + rest.length := by
        simp only [List.length_cons]; omega
      rw [pieceCountLoop_token, scanPieces_token, hlen, ih (i + 2) (i + 2) _ (Nat.le_refl _),
        List.length_append, List.length_cons, length_literalPieces h]
      omega

theorem patternPieceCount_eq (text : Text) :
    patternPieceCount text = (scanPieces text 0 0).length := by
  have h := pieceCountLoop_eq text 0 0 0 (Nat.le_refl _)
  simpa [patternPieceCount] using h

/-! ## Filling the array -/

/-- An array whose first pieces are `done` and whose other `room` slots are still default. -/
def PieceArray.filled (done : List PatternPiece) (room : ℕ) : PieceArray :=
  ⟨done ++ List.replicate room ({} : PatternPiece), done.length⟩

theorem PieceArray.emit_filled (done : List PatternPiece) (room : ℕ) (piece : PatternPiece) :
    (PieceArray.filled done (room + 1)).emit piece =
      some (PieceArray.filled (done ++ [piece]) room) := by
  simp [PieceArray.emit, PieceArray.filled, List.replicate_succ]

theorem PieceArray.emitLiteral_filled (done : List PatternPiece) (room start size : ℕ) :
    (PieceArray.filled done (room + (literalPieces start size).length)).emitLiteral start size =
      some (PieceArray.filled (done ++ literalPieces start size) room) := by
  by_cases h : size = 0
  · simp [PieceArray.emitLiteral, literalPieces, h]
  · simp [PieceArray.emitLiteral, literalPieces, h, PieceArray.emit_filled]

/-- With room for the pieces of the scan, the loop and the final `emit_literal` write them
in order and nothing else. -/
theorem compileLoop_filled (rest : Text) (i literalBegin : ℕ) (done : List PatternPiece)
    (room : ℕ) :
    (compileLoop rest i literalBegin
        (PieceArray.filled done (room + (scanPieces rest i literalBegin).length))).bind
      (fun exit => exit.1.emitLiteral exit.2 (i + rest.length - exit.2)) =
      some (PieceArray.filled (done ++ scanPieces rest i literalBegin) room) := by
  induction rest using scan_induct generalizing i literalBegin done room with
  | nil => simpa [compileLoop, scanPieces] using PieceArray.emitLiteral_filled done room _ _
  | plain c rest hc ih =>
      have hlen : i + (c :: rest).length = i + 1 + rest.length := by
        simp only [List.length_cons]; omega
      rw [compileLoop_plain _ _ _ hc, scanPieces_plain _ _ _ hc, hlen]
      exact ih (i + 1) literalBegin done room
  | lone =>
      have hroom : room + (literalPieces literalBegin (i - literalBegin) ++
          [(⟨.literal, i, 1⟩ : PatternPiece)]).length =
          room + 1 + (literalPieces literalBegin (i - literalBegin)).length := by
        simp only [List.length_append, List.length_singleton]; omega
      rw [scanPieces_lone, hroom]
      simp only [compileLoop, ne_eq, not_true_eq_false, ite_false,
        PieceArray.emitLiteral_filled, Option.bind_some]
      simp [PieceArray.emitLiteral, PieceArray.emit_filled, List.append_assoc]
  | token t rest ih =>
      have hroom : room + (literalPieces literalBegin (i - literalBegin) ++
          tokenPiece t i :: scanPieces rest (i + 2) (i + 2)).length =
          room + (scanPieces rest (i + 2) (i + 2)).length + 1 +
            (literalPieces literalBegin (i - literalBegin)).length := by
        simp only [List.length_append, List.length_cons]; omega
      have hlen : i + (percentSign :: t :: rest).length = i + 2 + rest.length := by
        simp only [List.length_cons]; omega
      rw [scanPieces_token, hroom, hlen]
      simp only [compileLoop, ne_eq, not_true_eq_false, ite_false,
        PieceArray.emitLiteral_filled, Option.bind_some, PieceArray.emit_filled]
      rw [ih]
      simp [List.append_assoc]

/-- Every write stays in bounds, and the array holds the pieces of the scan. -/
theorem compilePattern_eq (text : Text) :
    compilePattern text = some ⟨scanPieces text 0 0, (scanPieces text 0 0).length⟩ := by
  have h := compileLoop_filled text 0 0 [] 0
  simpa [compilePattern, PieceArray.filled, patternPieceCount_eq] using h

theorem formatPatternProgram_eq (text : Text) :
    formatPatternProgram text = ⟨text, scanPieces text 0 0⟩ := by
  simp [formatPatternProgram, compilePattern_eq]

/-! ## Tokens -/

/-- The character that selects a token. -/
def PatternToken.character : PatternToken → UInt8
  | .literal => 0
  | .percent => '%'.toUInt8
  | .hour => 'H'.toUInt8
  | .minute => 'M'.toUInt8
  | .second => 'S'.toUInt8
  | .millis => 'e'.toUInt8
  | .elapsed => '*'.toUInt8
  | .loggerName => 'n'.toUInt8
  | .level => 'l'.toUInt8
  | .sourceFile => 'g'.toUInt8
  | .sourceLine => '#'.toUInt8
  | .message => 'v'.toUInt8
  | .colorStart => '^'.toUInt8
  | .colorEnd => '$'.toUInt8

theorem decodePatternToken_spec {token : UInt8} (h : (decodePatternToken token).known = true) :
    (decodePatternToken token).token ≠ .literal ∧
      (decodePatternToken token).token.character = token := by
  have hround : (Char.ofUInt8 token).toUInt8 = token := by
    simp [Char.ofUInt8, Char.toUInt8]
  revert h
  unfold decodePatternToken
  split
  case h_14 => exact nofun
  all_goals
    rename_i hc
    rw [hc] at hround
    exact fun _ => ⟨nofun, hround⟩

theorem tokenPiece_known {token : UInt8} (h : (decodePatternToken token).known = true) (i : ℕ) :
    tokenPiece token i = ⟨(decodePatternToken token).token, 0, 0⟩ := by
  simp [tokenPiece, h]

theorem tokenPiece_unknown {token : UInt8} (h : (decodePatternToken token).known = false)
    (i : ℕ) : tokenPiece token i = ⟨.literal, i, 2⟩ := by
  simp [tokenPiece, h]

/-! ## Shape and source spans of the pieces -/

/-- A literal piece is a nonempty slice of a text of the given size. -/
def PatternPiece.WellFormed (size : ℕ) (piece : PatternPiece) : Prop :=
  piece.token = .literal → piece.size ≠ 0 ∧ piece.offset + piece.size ≤ size

theorem literalPieces_wellFormed {start stop size : ℕ} (h : start ≤ stop) (hs : stop ≤ size) :
    ∀ piece ∈ literalPieces start (stop - start), piece.WellFormed size := by
  intro piece hp
  unfold literalPieces at hp
  split at hp
  · rename_i hne
    rw [List.mem_singleton] at hp
    subst piece
    intro _
    dsimp only
    omega
  · simp at hp

theorem tokenPiece_wellFormed {token : UInt8} {i size : ℕ} (h : i + 2 ≤ size) :
    (tokenPiece token i).WellFormed size := by
  cases hk : (decodePatternToken token).known with
  | true =>
      rw [tokenPiece_known hk]
      intro ht
      exact absurd ht (decodePatternToken_spec hk).1
  | false =>
      rw [tokenPiece_unknown hk]
      exact fun _ => ⟨Nat.succ_ne_zero 1, h⟩

theorem scanPieces_wellFormed (rest : Text) (i literalBegin : ℕ) (h : literalBegin ≤ i) :
    ∀ piece ∈ scanPieces rest i literalBegin, piece.WellFormed (i + rest.length) := by
  induction rest using scan_induct generalizing i literalBegin with
  | nil => exact literalPieces_wellFormed h (by simp)
  | plain c rest hc ih =>
      have hlen : i + (c :: rest).length = i + 1 + rest.length := by
        simp only [List.length_cons]; omega
      rw [scanPieces_plain _ _ _ hc, hlen]
      exact ih (i + 1) literalBegin (by omega)
  | lone =>
      intro piece hp
      rw [scanPieces_lone] at hp
      rcases List.mem_append.mp hp with hp | hp
      · exact literalPieces_wellFormed h (by simp) piece hp
      · rw [List.mem_singleton] at hp
        subst piece
        simp [PatternPiece.WellFormed]
  | token t rest ih =>
      have hlen : i + (percentSign :: t :: rest).length = i + 2 + rest.length := by
        simp only [List.length_cons]; omega
      intro piece hp
      rw [scanPieces_token] at hp
      rw [hlen]
      rcases List.mem_append.mp hp with hp | hp
      · exact literalPieces_wellFormed h (by omega) piece hp
      · rcases List.mem_cons.mp hp with rfl | hp
        · exact tokenPiece_wellFormed (by omega)
        · exact ih (i + 2) (i + 2) (Nat.le_refl _) piece hp

/-- The bytes of the text a literal piece stands for. -/
def slice (text : Text) (offset size : ℕ) : Text := (text.drop offset).take size

/-- The bytes of the text a piece was compiled from. -/
def PatternPiece.span (text : Text) (piece : PatternPiece) : Text :=
  if piece.token = .literal then slice text piece.offset piece.size
  else [percentSign, piece.token.character]

/-- A slice ends where the cursor stands: what is left of the text follows it. -/
theorem slice_append_of_drop {text rest : Text} {start stop : ℕ} (h : start ≤ stop)
    (hr : text.drop stop = rest) : slice text start (stop - start) ++ rest = text.drop start := by
  have hd : text.drop stop = (text.drop start).drop (stop - start) := by
    rw [List.drop_drop]
    congr 1
    omega
  rw [← hr, slice, hd, List.take_append_drop]

theorem flatMap_span_literalPieces (text : Text) (start size : ℕ) :
    (literalPieces start size).flatMap (PatternPiece.span text) = slice text start size := by
  unfold literalPieces
  by_cases h : size = 0
  · simp [h, slice]
  · simp [h, PatternPiece.span]

theorem span_tokenPiece {text rest : Text} {token : UInt8} {i : ℕ}
    (hr : text.drop i = percentSign :: token :: rest) :
    (tokenPiece token i).span text = [percentSign, token] := by
  cases hk : (decodePatternToken token).known with
  | true =>
      obtain ⟨hne, hchar⟩ := decodePatternToken_spec hk
      simp [tokenPiece_known hk, PatternPiece.span, hne, hchar]
  | false => simp [tokenPiece_unknown hk, PatternPiece.span, slice, hr]

/-- Dropping one more byte from a text whose rest is known. -/
theorem drop_succ_of_drop {text rest : Text} {c : UInt8} {i : ℕ}
    (h : text.drop i = c :: rest) : text.drop (i + 1) = rest := by
  rw [← List.tail_drop, h, List.tail_cons]

/-- The pieces of a scan cover the open literal and the rest of the text. -/
theorem flatMap_span_scanPieces (text rest : Text) (i literalBegin : ℕ)
    (h : literalBegin ≤ i) (hr : text.drop i = rest) :
    (scanPieces rest i literalBegin).flatMap (PatternPiece.span text) =
      text.drop literalBegin := by
  induction rest using scan_induct generalizing i literalBegin with
  | nil =>
      rw [scanPieces, flatMap_span_literalPieces]
      simpa using slice_append_of_drop h hr
  | plain c rest hc ih =>
      rw [scanPieces_plain _ _ _ hc]
      exact ih (i + 1) literalBegin (by omega) (drop_succ_of_drop hr)
  | lone =>
      have hlast : slice text i 1 = [percentSign] := by simp [slice, hr]
      rw [scanPieces_lone, List.flatMap_append, flatMap_span_literalPieces,
        ← slice_append_of_drop h hr]
      simp [PatternPiece.span, hlast]
  | token t rest ih =>
      have hnext := drop_succ_of_drop (drop_succ_of_drop hr)
      rw [scanPieces_token, List.flatMap_append, flatMap_span_literalPieces, List.flatMap_cons,
        ih (i + 2) (i + 2) (Nat.le_refl _) hnext, span_tokenPiece hr, hnext,
        ← slice_append_of_drop h hr]
      rfl

end Unlog.Pattern
