import Unlog.Render.Line

/-! # Compiled patterns render like their text -/

namespace Unlog.Render

open Pattern

section Render

variable {σ : Type} (cstr : ℕ → Text) (resolveBasename : Option (BasenameResolver σ))
  (sink : SinkEntry) (rec : LogEntry) (tm : Tm) (millis : ℕ) (elapsed : Text)

theorem interpret_plain {c : UInt8} (h : c ≠ percentSign) (rest : Text) (context : σ) :
    interpret cstr resolveBasename sink rec tm millis elapsed (c :: rest) context =
      (c :: (interpret cstr resolveBasename sink rec tm millis elapsed rest context).1,
        (interpret cstr resolveBasename sink rec tm millis elapsed rest context).2) := by
  rw [interpret.eq_def]
  exact if_pos h

/-- The piece compiled from `%t` appends what the reference reads in `%t`. -/
theorem pieceText_tokenPiece {t : UInt8} {rest : Text} {i : ℕ}
    (hr : sink.pattern.text.drop i = percentSign :: t :: rest) (context : σ) :
    pieceText cstr resolveBasename sink rec tm millis elapsed (tokenPiece t i) context =
      interpretToken cstr resolveBasename sink rec tm millis elapsed t context := by
  unfold tokenPiece decodePatternToken interpretToken
  generalize Char.ofUInt8 t = c
  split
  case h_14 => simp_all [pieceText, slice]
  all_goals rfl

theorem renderPieces_append (first second : List PatternPiece) (out : Text) (context : σ) :
    renderPieces cstr resolveBasename sink rec tm millis elapsed (first ++ second) out context =
      renderPieces cstr resolveBasename sink rec tm millis elapsed second
        (renderPieces cstr resolveBasename sink rec tm millis elapsed first out context).1
        (renderPieces cstr resolveBasename sink rec tm millis elapsed first out context).2 := by
  induction first generalizing out context with
  | nil => rfl
  | cons piece first ih =>
      simp only [List.cons_append, renderPieces]
      exact ih _ _

theorem renderPieces_literalPieces (start size : ℕ) (out : Text) (context : σ) :
    renderPieces cstr resolveBasename sink rec tm millis elapsed (literalPieces start size)
      out context = (out ++ slice sink.pattern.text start size, context) := by
  unfold literalPieces
  by_cases h : size = 0
  · simp [h, renderPieces, slice]
  · simp [h, renderPieces, pieceText]

/-- Rendering the pieces of a scan flushes the open literal and interprets the rest. -/
theorem renderPieces_scanPieces (rest : Text) (i literalBegin : ℕ) (h : literalBegin ≤ i)
    (hr : sink.pattern.text.drop i = rest) (out : Text) (context : σ) :
    renderPieces cstr resolveBasename sink rec tm millis elapsed
        (scanPieces rest i literalBegin) out context =
      (out ++ slice sink.pattern.text literalBegin (i - literalBegin) ++
          (interpret cstr resolveBasename sink rec tm millis elapsed rest context).1,
        (interpret cstr resolveBasename sink rec tm millis elapsed rest context).2) := by
  induction rest using scan_induct generalizing i literalBegin out context with
  | nil => simp [scanPieces, renderPieces_literalPieces, interpret]
  | plain c rest hc ih =>
      have hnext := drop_succ_of_drop hr
      have hslice : slice sink.pattern.text literalBegin (i + 1 - literalBegin) =
          slice sink.pattern.text literalBegin (i - literalBegin) ++ [c] := by
        have hsub : i + 1 - literalBegin = (i - literalBegin) + 1 := by omega
        have hget : (sink.pattern.text.drop literalBegin)[i - literalBegin]? = some c := by
          rw [List.getElem?_drop, Nat.add_sub_cancel' h, ← List.head?_drop, hr]
          rfl
        rw [slice, hsub, List.take_add_one, hget]
        rfl
      rw [scanPieces_plain _ _ _ hc, ih (i + 1) literalBegin (by omega) hnext, hslice,
        interpret_plain _ _ _ _ _ _ _ hc]
      simp [List.append_assoc]
  | lone =>
      have hlast : slice sink.pattern.text i 1 = [percentSign] := by simp [slice, hr]
      rw [scanPieces_lone, renderPieces_append, renderPieces_literalPieces]
      simp [renderPieces, pieceText, hlast, interpret]
  | token t rest ih =>
      have hnext := drop_succ_of_drop (drop_succ_of_drop hr)
      rw [scanPieces_token, renderPieces_append, renderPieces_literalPieces, renderPieces,
        pieceText_tokenPiece _ _ _ _ _ _ _ hr]
      dsimp only
      rw [ih (i + 2) (i + 2) (Nat.le_refl _) hnext]
      simp [slice, interpret, List.append_assoc]

/-- A line rendered from a compiled pattern is the interpretation of its text. -/
theorem renderPattern_formatPattern (text : Text)
    (hp : sink.pattern = formatPatternProgram text) (context : σ) :
    ((renderPattern cstr resolveBasename sink rec tm millis elapsed context).1.renderBuffer,
        (renderPattern cstr resolveBasename sink rec tm millis elapsed context).2) =
      ((interpret cstr resolveBasename sink rec tm millis elapsed text context).1 ++ [newline],
        (interpret cstr resolveBasename sink rec tm millis elapsed text context).2) := by
  have htext : sink.pattern.text = text := by rw [hp, formatPatternProgram_eq]
  have hpieces : sink.pattern.pieces = scanPieces text 0 0 := by rw [hp, formatPatternProgram_eq]
  have hscan := renderPieces_scanPieces cstr resolveBasename sink rec tm millis elapsed text 0 0
    (Nat.le_refl 0) htext [] context
  simp only [renderPattern, hpieces, hscan]
  simp [slice]

end Render

/-- Compilation of any text succeeds without a write past the array, fills every slot,
emits only well-formed pieces that spell the text, and renders as the text reads. -/
theorem compilePattern_exact (text : Text) :
    ∃ array, compilePattern text = some array ∧
      array.pieces.length = patternPieceCount text ∧
      array.output = patternPieceCount text ∧
      (∀ piece ∈ array.pieces, piece.WellFormed text.length) ∧
      array.pieces.flatMap (PatternPiece.span text) = text ∧
      ∀ {σ : Type} (cstr : ℕ → Text) (resolveBasename : Option (BasenameResolver σ))
        (sink : SinkEntry) (rec : LogEntry) (tm : Tm) (millis : ℕ) (elapsed : Text) (context : σ),
        let entry := { sink with pattern := ⟨text, array.pieces⟩ }
        let rendered := renderPattern cstr resolveBasename entry rec tm millis elapsed context
        let reference := interpret cstr resolveBasename entry rec tm millis elapsed text context
        (rendered.1.renderBuffer, rendered.2) = (reference.1 ++ [newline], reference.2) := by
  refine ⟨_, compilePattern_eq text, (patternPieceCount_eq text).symm,
    (patternPieceCount_eq text).symm, ?_, ?_, ?_⟩
  · simpa using scanPieces_wellFormed text 0 0 (Nat.le_refl 0)
  · simpa using flatMap_span_scanPieces text text 0 0 (Nat.le_refl 0) rfl
  · intro σ cstr resolveBasename sink rec tm millis elapsed context
    exact renderPattern_formatPattern cstr resolveBasename _ rec tm millis elapsed text
      (by rw [formatPatternProgram_eq]) context

end Unlog.Render
