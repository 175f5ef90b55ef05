import Unlog.Pattern.Compile

/-! The compile-time analysers of `format.hpp` and their agreement with the pieces
that the compiler emits. -/

namespace Unlog.Pattern

inductive TimeRequirements where
  | none | wallClock | elapsed | wallClockElapsed
  deriving DecidableEq, Repr

def requiresWallClock : TimeRequirements → Bool
  | .wallClock | .wallClockElapsed => true
  | .none | .elapsed => false

def requiresElapsed : TimeRequirements → Bool
  | .elapsed | .wallClockElapsed => true
  | .none | .wallClock => false

theorem requiresWallClock_none : requiresWallClock .none = false := rfl

theorem requiresElapsed_none : requiresElapsed .none = false := rfl

/-- `operator|` on the two requirement bits. -/
def TimeRequirements.union (lhs rhs : TimeRequirements) : TimeRequirements :=
  match requiresWallClock lhs || requiresWallClock rhs,
      requiresElapsed lhs || requiresElapsed rhs with
  | false, false => .none
  | true, false => .wallClock
  | false, true => .elapsed
  | true, true => .wallClockElapsed

@[simp] theorem requiresWallClock_union (lhs rhs : TimeRequirements) :
    requiresWallClock (lhs.union rhs) = (requiresWallClock lhs || requiresWallClock rhs) := by
  cases lhs <;> cases rhs <;> rfl

@[simp] theorem requiresElapsed_union (lhs rhs : TimeRequirements) :
    requiresElapsed (lhs.union rhs) = (requiresElapsed lhs || requiresElapsed rhs) := by
  cases lhs <;> cases rhs <;> rfl

/-- The `switch` of `analyze_time_requirements`. -/
def tokenRequirements (token : UInt8) : TimeRequirements :=
  match Char.ofUInt8 token with
  | 'H' | 'M' | 'S' | 'e' => .wallClock
  | '*' => .elapsed
  | _ => .none

def analyzeLoop : Text → TimeRequirements → TimeRequirements
  | [], requirements => requirements
  | c :: rest, requirements =>
    if c ≠ percentSign then analyzeLoop rest requirements
    else
      match rest with
      | [] => requirements
      | token :: rest => analyzeLoop rest (requirements.union (tokenRequirements token))

def analyzeTimeRequirements (pattern : Text) : TimeRequirements :=
  analyzeLoop pattern .none

/-- `pattern_uses_token`: the loop stops when fewer than two bytes are left. -/
def patternUsesToken : Text → UInt8 → Bool
  | [], _ => false
  | [_], _ => false
  | c :: t :: rest, token =>
    if c = percentSign then
      if t = token then true else patternUsesToken rest token
    else patternUsesToken (t :: rest) token

/-! ## The analysers read the lexemes -/

theorem analyzeLoop_plain {c : UInt8} (h : c ≠ percentSign) (rest : Text)
    (requirements : TimeRequirements) :
    analyzeLoop (c :: rest) requirements = analyzeLoop rest requirements := by
  rw [analyzeLoop.eq_def]
  exact if_pos h

theorem analyzeLoop_token (t : UInt8) (rest : Text) (requirements : TimeRequirements) :
    analyzeLoop (percentSign :: t :: rest) requirements =
      analyzeLoop rest (requirements.union (tokenRequirements t)) := rfl

/-- An additive question about the requirements is answered by some token of the text. -/
theorem analyzeLoop_iff (ask : TimeRequirements → Bool)
    (hask : ∀ lhs rhs, ask (lhs.union rhs) = (ask lhs || ask rhs))
    (text : Text) (requirements : TimeRequirements) :
    ask (analyzeLoop text requirements) = true ↔
      ask requirements = true ∨
        ∃ t, Lexeme.token t ∈ lexemes text ∧ ask (tokenRequirements t) = true := by
  induction text using scan_induct generalizing requirements with
  | nil => simp [analyzeLoop]
  | plain c rest h ih =>
      rw [analyzeLoop_plain h, ih]
      simp [h]
  | lone => simp [analyzeLoop]
  | token t rest ih =>
      rw [analyzeLoop_token, ih, hask]
      simp only [Bool.or_eq_true, lexemes_token, List.mem_cons, Lexeme.token.injEq]
      constructor
      · rintro ((h | h) | ⟨u, hu, h⟩)
        · exact .inl h
        · exact .inr ⟨t, .inl rfl, h⟩
        · exact .inr ⟨u, .inr hu, h⟩
      · rintro (h | ⟨u, rfl | hu, h⟩)
        · exact .inl (.inl h)
        · exact .inl (.inr h)
        · exact .inr ⟨u, hu, h⟩

theorem patternUsesToken_plain {c : UInt8} (h : c ≠ percentSign) (rest : Text) (token : UInt8) :
    patternUsesToken (c :: rest) token = patternUsesToken rest token := by
  cases rest with
  | nil => rfl
  | cons t rest => simp [patternUsesToken, h]

theorem patternUsesToken_iff (text : Text) (token : UInt8) :
    patternUsesToken text token = true ↔ Lexeme.token token ∈ lexemes text := by
  induction text using scan_induct with
  | nil => simp [patternUsesToken]
  | plain c rest h ih =>
      rw [patternUsesToken_plain h, ih]
      simp [h]
  | lone => simp [patternUsesToken]
  | token t rest ih =>
      by_cases ht : t = token
      · simp [patternUsesToken, ht]
      · simp [patternUsesToken, ht, ih, Ne.symm ht]

/-! ## The pieces read the lexemes -/

theorem decodePatternToken_character {token : PatternToken} (h : token ≠ .literal) :
    decodePatternToken token.character = ⟨token, true⟩ := by
  cases token <;> first | exact absurd rfl h | rfl

theorem token_tokenPiece_iff {token : PatternToken} (h : token ≠ .literal) (t : UInt8) (i : ℕ) :
    (tokenPiece t i).token = token ↔ t = token.character := by
  constructor
  · intro ht
    cases hk : (decodePatternToken t).known with
    | true =>
        rw [tokenPiece_known hk] at ht
        rw [← (decodePatternToken_spec hk).2, ← ht]
    | false =>
        rw [tokenPiece_unknown hk] at ht
        exact absurd ht.symm h
  · rintro rfl
    simp [tokenPiece, decodePatternToken_character h]

theorem token_literalPieces {start size : ℕ} {piece : PatternPiece}
    (h : piece ∈ literalPieces start size) : piece.token = .literal := by
  unfold literalPieces at h
  split at h
  · rw [List.mem_singleton] at h
    rw [h]
  · simp at h

/-- A token is among the pieces exactly when its two characters are in the text. -/
theorem mem_scanPieces_iff {token : PatternToken} (h : token ≠ .literal) (rest : Text)
    (i literalBegin : ℕ) :
    (∃ piece ∈ scanPieces rest i literalBegin, piece.token = token) ↔
      Lexeme.token token.character ∈ lexemes rest := by
  have hliteral : ∀ start size, ¬∃ piece ∈ literalPieces start size, piece.token = token := by
    rintro start size ⟨piece, hp, ht⟩
    exact h (ht ▸ token_literalPieces hp)
  induction rest using scan_induct generalizing i literalBegin with
  | nil => simpa [scanPieces] using hliteral literalBegin (i - literalBegin)
  | plain c rest hc ih =>
      rw [scanPieces_plain _ _ _ hc]
      exact (ih (i + 1) literalBegin).trans (by simp [hc])
  | lone =>
      have hl := hliteral literalBegin (i - literalBegin)
      push Not at hl
      rw [scanPieces_lone]
      simpa [or_imp, forall_and, Ne.symm h] using hl
  | token t rest ih =>
      rw [scanPieces_token, lexemes_token, List.mem_cons, Lexeme.token.injEq]
      refine Iff.trans ?_ (or_congr_right (ih (i + 2) (i + 2)))
      constructor
      · rintro ⟨piece, hp, ht⟩
        rcases List.mem_append.mp hp with hp | hp
        · exact absurd ⟨piece, hp, ht⟩ (hliteral _ _)
        · rcases List.mem_cons.mp hp with rfl | hp
          · exact .inl ((token_tokenPiece_iff h t i).mp ht).symm
          · exact .inr ⟨piece, hp, ht⟩
      · rintro (ht | ⟨piece, hp, ht⟩)
        · exact ⟨tokenPiece t i, by simp, (token_tokenPiece_iff h t i).mpr ht.symm⟩
        · exact ⟨piece, by simp [hp], ht⟩

/-- `token` is one of the pieces `compile_pattern` makes of `text`. -/
def Yields (text : Text) (token : PatternToken) : Prop :=
  ∃ piece ∈ (formatPatternProgram text).pieces, piece.token = token

theorem yields_iff (text : Text) (token : PatternToken) (h : token ≠ .literal) :
    Yields text token ↔ Lexeme.token token.character ∈ lexemes text := by
  rw [Yields, formatPatternProgram_eq]
  exact mem_scanPieces_iff h text 0 0

/-! ## Agreement -/

theorem requiresWallClock_tokenRequirements (t : UInt8) :
    requiresWallClock (tokenRequirements t) = true ↔
      t = PatternToken.hour.character ∨ t = PatternToken.minute.character ∨
        t = PatternToken.second.character ∨ t = PatternToken.millis.character := by
  have hround : (Char.ofUInt8 t).toUInt8 = t := by
    simp [Char.ofUInt8, Char.toUInt8]
  constructor
  · unfold tokenRequirements
    split
    case h_5 | h_6 => simp [requiresWallClock]
    all_goals
      rename_i hc
      rw [hc] at hround
      intro _
      simp [← hround, PatternToken.character]
  · rintro (rfl | rfl | rfl | rfl) <;> rfl

theorem requiresElapsed_tokenRequirements (t : UInt8) :
    requiresElapsed (tokenRequirements t) = true ↔ t = PatternToken.elapsed.character := by
  have hround : (Char.ofUInt8 t).toUInt8 = t := by
    simp [Char.ofUInt8, Char.toUInt8]
  constructor
  · unfold tokenRequirements
    split
    case h_5 hc =>
      rw [hc] at hround
      exact fun _ => hround.symm
    all_goals simp [requiresElapsed]
  · rintro rfl
    rfl

theorem requiresWallClock_analyze_iff (text : Text) :
    requiresWallClock (analyzeTimeRequirements text) = true ↔
      Yields text .hour ∨ Yields text .minute ∨ Yields text .second ∨ Yields text .millis := by
  rw [analyzeTimeRequirements, analyzeLoop_iff _ requiresWallClock_union,
    yields_iff text .hour nofun, yields_iff text .minute nofun,
    yields_iff text .second nofun, yields_iff text .millis nofun]
  simp only [requiresWallClock_none, Bool.false_eq_true, false_or,
    requiresWallClock_tokenRequirements]
  constructor
  · rintro ⟨t, ht, rfl | rfl | rfl | rfl⟩ <;> simp [ht]
  · rintro (h | h | h | h)
    · exact ⟨_, h, .inl rfl⟩
    · exact ⟨_, h, .inr (.inl rfl)⟩
    · exact ⟨_, h, .inr (.inr (.inl rfl))⟩
    · exact ⟨_, h, .inr (.inr (.inr rfl))⟩

theorem requiresElapsed_analyze_iff (text : Text) :
    requiresElapsed (analyzeTimeRequirements text) = true ↔ Yields text .elapsed := by
  rw [analyzeTimeRequirements, analyzeLoop_iff _ requiresElapsed_union,
    yields_iff text .elapsed nofun]
  simp [requiresElapsed_none, requiresElapsed_tokenRequirements]

theorem usesSourceFile_iff (text : Text) :
    patternUsesToken text 'g'.toUInt8 = true ↔ Yields text .sourceFile := by
  rw [patternUsesToken_iff, yields_iff text .sourceFile nofun]
  rfl

theorem usesSourceLine_iff (text : Text) :
    patternUsesToken text '#'.toUInt8 = true ↔ Yields text .sourceLine := by
  rw [patternUsesToken_iff, yields_iff text .sourceLine nofun]
  rfl

/-- The analysers say of a text what its pieces show. -/
structure AnalysersAgree (text : Text) (pieces : List PatternPiece) : Prop where
  wallClock : requiresWallClock (analyzeTimeRequirements text) = true ↔
    ∃ piece ∈ pieces, piece.token = .hour ∨ piece.token = .minute ∨ piece.token = .second ∨
      piece.token = .millis
  elapsed : requiresElapsed (analyzeTimeRequirements text) = true ↔
    ∃ piece ∈ pieces, piece.token = .elapsed
  sourceFile : patternUsesToken text 'g'.toUInt8 = true ↔
    ∃ piece ∈ pieces, piece.token = .sourceFile
  sourceLine : patternUsesToken text '#'.toUInt8 = true ↔
    ∃ piece ∈ pieces, piece.token = .sourceLine

/-- `compile_pattern` and the analysers read every text alike. -/
theorem compilePattern_analysed (text : Text) :
    ∃ array, compilePattern text = some array ∧ AnalysersAgree text array.pieces := by
  refine ⟨_, compilePattern_eq text, ?_⟩
  have hyields : ∀ token, Yields text token ↔
      ∃ piece ∈ scanPieces text 0 0, piece.token = token := by
    intro token
    rw [Yields, formatPatternProgram_eq]
  refine ⟨?_, ?_, ?_, ?_⟩
  · rw [requiresWallClock_analyze_iff, hyields, hyields, hyields, hyields]
    simp only [and_or_left, exists_or]
  · rw [requiresElapsed_analyze_iff, hyields]
  · rw [usesSourceFile_iff, hyields]
  · rw [usesSourceLine_iff, hyields]

end Unlog.Pattern
