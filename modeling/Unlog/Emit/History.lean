import Unlog.Emit.Capture

/-! # Rendering is independent of history

One scratch serves every record and every sink, and each sink reuses its buffer. -/

namespace Unlog.Emit

open Pattern Render

/-! ## Sequences of calls -/

/-- The arguments of one call of `render_pattern`, but for the scratch. `ι` names the sinks. -/
structure RenderCall (ι : Type) where
  sink : ι
  entry : LogEntry
  tm : Tm
  millis : ℕ
  elapsed : Text

/-- The sinks with their buffers, the scratch they share, and the lines returned so far. -/
structure Renderer (ι : Type) where
  sinks : ι → SinkEntry
  scratch : ConsumerScratch := {}
  lines : List Text := []

section Render

variable {ι : Type} [DecidableEq ι] (cstr : ℕ → Text)

/-- `render_pattern` on the call's sink; the returned view is the sink's buffer. -/
def Renderer.render (renderer : Renderer ι) (call : RenderCall ι) : Renderer ι :=
  let rendered := renderPattern cstr (some (resolveCachedSourceBasename cstr))
    (renderer.sinks call.sink) call.entry call.tm call.millis call.elapsed renderer.scratch
  { sinks := Function.update renderer.sinks call.sink rendered.1
    scratch := rendered.2
    lines := renderer.lines ++ [rendered.1.renderBuffer] }

def Renderer.renderAll (renderer : Renderer ι) (calls : List (RenderCall ι)) : Renderer ι :=
  calls.foldl (Renderer.render cstr) renderer

/-- The line of a call on an empty buffer, with every base name computed anew. -/
def freshLine (sinks : ι → SinkEntry) (call : RenderCall ι) : Text :=
  (renderPattern cstr (some (resolveSourceBasename cstr)) (clearBuffer (sinks call.sink))
    call.entry call.tm call.millis call.elapsed ()).1.renderBuffer

/-! ## The invariant -/

/-- Only buffers have changed, and the scratch remembers only base names it computed. -/
structure Renderer.Unmarked (initial : ι → SinkEntry) (renderer : Renderer ι) : Prop where
  sinks : ∀ i, clearBuffer (renderer.sinks i) = clearBuffer (initial i)
  scratch : renderer.scratch.Coherent cstr

variable {cstr} {initial : ι → SinkEntry} {renderer : Renderer ι}

theorem renderPieces_clearBuffer {σ : Type} (resolveBasename : Option (BasenameResolver σ))
    (sink : SinkEntry) (entry : LogEntry) (tm : Tm) (millis : ℕ) (elapsed : Text)
    (pieces : List PatternPiece) (out : Text) (context : σ) :
    renderPieces cstr resolveBasename (clearBuffer sink) entry tm millis elapsed pieces out
        context =
      renderPieces cstr resolveBasename sink entry tm millis elapsed pieces out context := by
  induction pieces generalizing out context with
  | nil => rfl
  | cons piece pieces ih => exact ih _ _

omit [DecidableEq ι] in
theorem freshLine_eq (sinks : ι → SinkEntry) (call : RenderCall ι) :
    freshLine cstr sinks call =
      (renderPieces cstr (some (resolveSourceBasename cstr)) (sinks call.sink) call.entry call.tm
        call.millis call.elapsed (sinks call.sink).pattern.pieces [] ()).1 ++ [newline] := by
  simp only [freshLine, renderPattern, renderPieces_clearBuffer]
  rfl

/-- One call returns the fresh line, whatever was rendered before it. -/
theorem Renderer.Unmarked.render (h : renderer.Unmarked cstr initial) (call : RenderCall ι) :
    (renderer.render cstr call).Unmarked cstr initial ∧
      (renderer.render cstr call).lines = renderer.lines ++ [freshLine cstr initial call] := by
  let sink := renderer.sinks call.sink
  have hcached := renderPieces_cached sink call.entry call.tm call.millis call.elapsed h.scratch
    sink.pattern.pieces []
  refine ⟨⟨?_, hcached.2⟩, ?_⟩
  · intro i
    by_cases hi : i = call.sink
    · subst hi
      simpa [Renderer.render, renderPattern, clearBuffer] using h.sinks call.sink
    · simpa [Renderer.render, hi] using h.sinks i
  · have hline : freshLine cstr initial call = freshLine cstr renderer.sinks call := by
      simp only [freshLine, h.sinks]
    rw [hline, freshLine_eq, ← hcached.1]
    rfl

theorem Renderer.Unmarked.renderAll (h : renderer.Unmarked cstr initial)
    (calls : List (RenderCall ι)) :
    (renderer.renderAll cstr calls).lines =
      renderer.lines ++ calls.map (freshLine cstr initial) := by
  induction calls generalizing renderer with
  | nil => simp [Renderer.renderAll]
  | cons call calls ih =>
      obtain ⟨hnext, hline⟩ := h.render call
      simp only [Renderer.renderAll, List.foldl_cons] at ih ⊢
      rw [ih hnext, hline, List.map_cons, List.append_assoc]
      rfl

end Render

/-! ## Base names -/

/-- `base` is what follows the last slash of `name`; without a slash, all of it. -/
def IsBasename (name base : Text) : Prop :=
  '/'.toUInt8 ∉ base ∧ (name = base ∨ ∃ directory, name = directory ++ '/'.toUInt8 :: base)

theorem isBasename_sourceBasename (name : Text) : IsBasename name (sourceBasename name) := by
  constructor
  · intro hmem
    rw [sourceBasename, List.mem_reverse] at hmem
    simpa using List.mem_takeWhile_imp hmem
  · have hsplit := List.takeWhile_append_dropWhile (p := (· ≠ '/'.toUInt8)) (l := name.reverse)
    have hname : name = (name.reverse.dropWhile (· ≠ '/'.toUInt8)).reverse ++
        sourceBasename name := by
      rw [sourceBasename, ← List.reverse_append, hsplit, List.reverse_reverse]
    cases hrest : name.reverse.dropWhile (· ≠ '/'.toUInt8) with
    | nil =>
        rw [hrest] at hname
        exact .inl hname
    | cons slash rest =>
        have hslash : slash = '/'.toUInt8 := by
          have hfirst := List.head?_dropWhile_not (· ≠ '/'.toUInt8) name.reverse
          rw [hrest] at hfirst
          simpa using hfirst
        rw [hrest, hslash] at hname
        exact .inr ⟨rest.reverse, by simpa using hname⟩

theorem IsBasename.eq_sourceBasename {name base : Text} (h : IsBasename name base) :
    base = sourceBasename name := by
  obtain ⟨hbase, hname⟩ := h
  have hkept : ∀ c ∈ base.reverse, decide (c ≠ '/'.toUInt8) = true := by
    intro c hc
    rw [List.mem_reverse] at hc
    exact decide_eq_true (fun heq => hbase (heq ▸ hc))
  rcases hname with rfl | ⟨directory, rfl⟩
  · rw [sourceBasename, List.takeWhile_eq_self_iff.mpr hkept, List.reverse_reverse]
  · have hreverse : (directory ++ '/'.toUInt8 :: base).reverse =
        base.reverse ++ '/'.toUInt8 :: directory.reverse := by simp
    rw [sourceBasename, hreverse, List.takeWhile_append_of_pos hkept]
    simp

example : sourceBasename (ascii "src/a/b.cpp") = ascii "b.cpp" := by decide

example : sourceBasename (ascii "src/a/") = [] := by decide

/-- Every line is the line of a fresh buffer and no cache, in which `%g` is the part of the
name after its last slash. -/
theorem renderAll_fresh {ι : Type} [DecidableEq ι] (cstr : ℕ → Text) (sinks : ι → SinkEntry)
    (calls : List (RenderCall ι)) :
    (Renderer.renderAll cstr { sinks := sinks } calls).lines = calls.map (freshLine cstr sinks) ∧
      ∀ filename base, (resolveSourceBasename cstr () filename).1 = base ↔
        IsBasename (cstr filename) base := by
  constructor
  · have h : Renderer.Unmarked cstr sinks { sinks := sinks } :=
      ⟨fun _ => rfl, coherent_empty cstr⟩
    exact h.renderAll calls
  · intro filename base
    constructor
    · rintro rfl
      exact isBasename_sourceBasename _
    · exact fun h => h.eq_sourceBasename.symm

end Unlog.Emit
