import Unlog.Emit.Specialised
import Unlog.Render.Correctness

/-! # From the log call to the lines

What a producer captures of a call, and the line every sink shows for the captured record. -/

namespace Unlog.Emit

open Pattern Render

/-! ## The basename cache -/

/-- The scratch remembers only base names it computed. -/
def ConsumerScratch.Coherent (cstr : ℕ → Text) (scratch : ConsumerScratch) : Prop :=
  (∀ filename, scratch.lastFilename = some filename →
    scratch.lastBasename = sourceBasename (cstr filename)) ∧
  ∀ filename basename, scratch.basenameCache.lookup filename = some basename →
    basename = sourceBasename (cstr filename)

theorem coherent_empty (cstr : ℕ → Text) : ConsumerScratch.Coherent cstr {} :=
  ⟨nofun, nofun⟩

theorem resolveCachedSourceBasename_coherent {cstr : ℕ → Text} {scratch : ConsumerScratch}
    (h : scratch.Coherent cstr) (filename : ℕ) :
    (resolveCachedSourceBasename cstr scratch filename).1 = sourceBasename (cstr filename) ∧
      (resolveCachedSourceBasename cstr scratch filename).2.Coherent cstr := by
  simp only [resolveCachedSourceBasename, cachedSourceBasename]
  by_cases hlast : some filename = scratch.lastFilename
  · rw [if_pos hlast]
    exact ⟨h.1 filename hlast.symm, h⟩
  · rw [if_neg hlast]
    cases hcache : scratch.basenameCache.lookup filename with
    | some basename =>
        have hbase := h.2 filename basename hcache
        refine ⟨hbase, ?_, h.2⟩
        rintro _ ⟨⟩
        exact hbase
    | none =>
        refine ⟨rfl, ?_, ?_⟩
        · rintro _ ⟨⟩
          rfl
        · intro other basename hother
          simp only [List.lookup_cons] at hother
          by_cases heq : other = filename
          · subst heq
            simpa using hother.symm
          · rw [beq_eq_false_iff_ne.mpr heq] at hother
            exact h.2 other basename hother

/-! ## What a sink shows for a log entry -/

/-- The resolver without a cache. -/
def resolveSourceBasename (cstr : ℕ → Text) : BasenameResolver Unit :=
  fun context filename => (sourceBasename (cstr filename), context)

section Cached

variable {cstr : ℕ → Text} {scratch : ConsumerScratch} (sink : SinkEntry) (entry : LogEntry)
  (tm : Tm) (millis : ℕ) (elapsed : Text)

theorem pieceText_cached (h : scratch.Coherent cstr) (piece : PatternPiece) :
    let appended := pieceText cstr (some (resolveCachedSourceBasename cstr)) sink entry tm millis
      elapsed piece scratch
    appended.1 = (pieceText cstr (some (resolveSourceBasename cstr)) sink entry tm millis
      elapsed piece ()).1 ∧ appended.2.Coherent cstr := by
  simp only [pieceText]
  cases piece.token
  case sourceFile =>
    unfold sourceFileText
    cases entry.sourceLocation.filename with
    | none => exact ⟨rfl, h⟩
    | some filename => exact resolveCachedSourceBasename_coherent h filename
  all_goals exact ⟨rfl, h⟩

theorem renderPieces_cached (h : scratch.Coherent cstr) (pieces : List PatternPiece)
    (out : Text) :
    let rendered := renderPieces cstr (some (resolveCachedSourceBasename cstr)) sink entry tm
      millis elapsed pieces out scratch
    rendered.1 = (renderPieces cstr (some (resolveSourceBasename cstr)) sink entry tm millis
      elapsed pieces out ()).1 ∧ rendered.2.Coherent cstr := by
  induction pieces generalizing scratch out with
  | nil => exact ⟨rfl, h⟩
  | cons piece pieces ih =>
      have hpiece := pieceText_cached sink entry tm millis elapsed h piece
      simp only [renderPieces]
      rw [hpiece.1]
      exact ih hpiece.2 _

end Cached

section Shown

variable (cstr : ℕ → Text) (localtime : ℤ → Tm) (anchors : StartupAnchors)
  (clockType : ClockType)

/-- The entry's pattern text, read from left to right with every time field computed and
file names cut to their base. -/
def shownLine (sink : SinkEntry) (entry : LogEntry) : Text :=
  let time := resolveRuntimeTimeContext localtime true true anchors entry.timestamp clockType
  (interpret cstr (some (resolveSourceBasename cstr)) sink entry time.tm time.millis
    time.elapsed sink.pattern.text ()).1 ++ [newline]

def shownPiece (sink : SinkEntry) (entry : LogEntry) (piece : PatternPiece) : Text :=
  let time := resolveRuntimeTimeContext localtime true true anchors entry.timestamp clockType
  (pieceText cstr (some (resolveSourceBasename cstr)) sink entry time.tm time.millis
    time.elapsed piece ()).1

theorem renderPieces_pure (sink : SinkEntry) (entry : LogEntry) (tm : Tm) (millis : ℕ)
    (elapsed : Text) (pieces : List PatternPiece) (out : Text) :
    (renderPieces cstr (some (resolveSourceBasename cstr)) sink entry tm millis elapsed pieces out
      ()).1 =
      out ++ pieces.flatMap fun piece =>
        (pieceText cstr (some (resolveSourceBasename cstr)) sink entry tm millis elapsed piece
          ()).1 := by
  induction pieces generalizing out with
  | nil => simp [renderPieces]
  | cons piece pieces ih =>
      rw [renderPieces, ih, List.flatMap_cons, ← List.append_assoc]

theorem renderPieces_coherent (sink : SinkEntry) (entry : LogEntry) (pieces : List PatternPiece)
    {scratch : ConsumerScratch} (h : scratch.Coherent cstr) (out : Text) :
    let time := resolveRuntimeTimeContext localtime true true anchors entry.timestamp clockType
    let rendered := renderPieces cstr (some (resolveCachedSourceBasename cstr)) sink entry time.tm
      time.millis time.elapsed pieces out scratch
    rendered.1 = out ++ pieces.flatMap (shownPiece cstr localtime anchors clockType sink entry) ∧
      rendered.2.Coherent cstr := by
  intro time
  have hcached := renderPieces_cached sink entry time.tm time.millis time.elapsed h pieces out
  exact ⟨hcached.1.trans (renderPieces_pure cstr sink entry time.tm time.millis time.elapsed
    pieces out), hcached.2⟩

theorem StoredFrom.text_eq {conf : Config} {sink : SinkEntry} (h : StoredFrom conf sink) :
    sink.pattern.text = conf.renderedText := by
  rw [h.1, configPatternProgram, formatPatternProgram_eq]

/-- A pattern text is read piece by piece. -/
theorem interpret_eq_flatMap {conf : Config} {sink : SinkEntry} (h : StoredFrom conf sink)
    (entry : LogEntry) (tm : Tm) (millis : ℕ) (elapsed : Text) :
    (interpret cstr (some (resolveSourceBasename cstr)) sink entry tm millis elapsed
        sink.pattern.text ()).1 ++ [newline] =
      (sink.pattern.pieces.flatMap fun piece =>
        (pieceText cstr (some (resolveSourceBasename cstr)) sink entry tm millis elapsed piece
          ()).1) ++ [newline] := by
  rw [h.text_eq]
  refine (congrArg Prod.fst (renderPattern_formatPattern cstr
    (some (resolveSourceBasename cstr)) sink entry tm millis elapsed conf.renderedText h.1
    ())).symm.trans ?_
  rw [renderPattern, renderPieces_pure]
  rfl

theorem shownLine_eq_flatMap {conf : Config} {sink : SinkEntry} (h : StoredFrom conf sink)
    (entry : LogEntry) :
    shownLine cstr localtime anchors clockType sink entry =
      sink.pattern.pieces.flatMap (shownPiece cstr localtime anchors clockType sink entry) ++
        [newline] :=
  interpret_eq_flatMap cstr h entry _ _ _

/-- With a coherent scratch, the line written is the line shown. -/
theorem writeEntry_coherent {conf : Config} {sink : SinkEntry} (hs : StoredFrom conf sink)
    {scratch : ConsumerScratch} (h : scratch.Coherent cstr) (entry : LogEntry) :
    let time := resolveRuntimeTimeContext localtime true true anchors entry.timestamp clockType
    (writeEntry cstr entry time sink scratch).2.2 =
        ⟨sink.sink, shownLine cstr localtime anchors clockType sink entry⟩ ∧
      (writeEntry cstr entry time sink scratch).2.1.Coherent cstr := by
  intro time
  obtain ⟨hline, hcoherent⟩ :=
    renderPieces_coherent cstr localtime anchors clockType sink entry sink.pattern.pieces h []
  refine ⟨?_, hcoherent⟩
  rw [shownLine_eq_flatMap cstr localtime anchors clockType hs]
  simp only [writeEntry, renderPattern]
  rw [hline]
  rfl

theorem writeEntries_coherent {sinks : List SinkEntry}
    (hs : ∀ sink ∈ sinks, ∃ conf, StoredFrom conf sink) {scratch : ConsumerScratch}
    (h : scratch.Coherent cstr) (entry : LogEntry) :
    let time := resolveRuntimeTimeContext localtime true true anchors entry.timestamp clockType
    (writeEntries cstr entry time sinks scratch).2.2 = sinks.map (fun sink =>
        ⟨sink.sink, shownLine cstr localtime anchors clockType sink entry⟩) ∧
      (writeEntries cstr entry time sinks scratch).2.1.Coherent cstr := by
  intro time
  induction sinks generalizing scratch with
  | nil => exact ⟨rfl, h⟩
  | cons sink sinks ih =>
      obtain ⟨conf, hconf⟩ := hs sink (by simp)
      obtain ⟨hfirst, hcoherent⟩ :=
        writeEntry_coherent cstr localtime anchors clockType hconf h entry
      obtain ⟨hrest, hdone⟩ := ih (fun later hl => hs later (by simp [hl])) hcoherent
      refine ⟨?_, hdone⟩
      rw [writeEntries, List.map_cons, hfirst, hrest]

end Shown

end Unlog.Emit
