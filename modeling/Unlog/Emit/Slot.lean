import Unlog.Runtime.State

/-! Emission of one consumed record: the consumer's scratch, the log entry rebuilt from the
slot header, and the specialised writers of `channel.cpp`. -/

namespace Unlog.Emit

open Pattern Render

def encodeLevel (level : LogLevel) : ℕ := level.toNat

/-- Values beyond `off` decode to `off`. -/
def decodeLevel : ℕ → LogLevel
  | 0 => .trace
  | 1 => .debug
  | 2 => .info
  | 3 => .warn
  | 4 => .err
  | 5 => .critical
  | _ => .off

@[simp] theorem decodeLevel_encodeLevel (level : LogLevel) :
    decodeLevel (encodeLevel level) = level := by
  cases level <;> rfl

/-- `record_slot_header`; `route` is the index of the `route_state` it points to. -/
structure RecordSlotHeader where
  route : Option ℕ := none
  timestamp : UInt64 := 0
  sourceFile : Option ℕ := none
  sourceLine : ℤ := 0
  payloadSize : ℕ := 0
  level : ℕ := encodeLevel .info
  truncated : Bool := false
  deriving DecidableEq, Repr

/-! ## Base names -/

/-- `rfind('/')` and `remove_prefix`: what follows the last slash. -/
def sourceBasename (name : Text) : Text := (name.reverse.takeWhile (· ≠ '/'.toUInt8)).reverse

structure ConsumerScratch where
  lastFilename : Option ℕ := none
  lastBasename : Text := []
  basenameCache : List (ℕ × Text) := []
  deriving DecidableEq, Repr

/-- `cached_source_basename`; the map is filled by `try_emplace` and never overwritten. -/
def cachedSourceBasename (cstr : ℕ → Text) (scratch : ConsumerScratch) (filename : Option ℕ) :
    Text × ConsumerScratch :=
  match filename with
  | none => ([], scratch)
  | some filename =>
    if some filename = scratch.lastFilename then (scratch.lastBasename, scratch)
    else
      match scratch.basenameCache.lookup filename with
      | some basename =>
        (basename, { scratch with lastFilename := some filename, lastBasename := basename })
      | none =>
        let basename := sourceBasename (cstr filename)
        (basename,
          { lastFilename := some filename
            lastBasename := basename
            basenameCache := (filename, basename) :: scratch.basenameCache })

def resolveCachedSourceBasename (cstr : ℕ → Text) : BasenameResolver ConsumerScratch :=
  fun scratch filename => cachedSourceBasename cstr scratch (some filename)

/-! ## Emission -/

def makeRuntimeLogEntry (channels : List RouteState) (header : RecordSlotHeader)
    (message : Text) : LogEntry where
  loggerName := ((header.route.bind (channels[·]?)).map RouteState.name).getD []
  level := decodeLevel header.level
  sourceLocation := ⟨header.sourceFile, header.sourceLine⟩
  message := message
  timestamp := header.timestamp

/-- A line handed to `sink->write`. -/
structure Written where
  sink : Option ℕ
  line : Text
  deriving DecidableEq, Repr

/-- What one emission reads and leaves: the routes and custom sinks with their render buffers,
the scratch, and the lines written so far. -/
structure Emission where
  runtime : RuntimeState
  scratch : ConsumerScratch
  written : List Written
  deriving DecidableEq, Repr

section Emit

variable (cstr : ℕ → Text) (localtime : ℤ → Tm)

/-- The `write` lambda of `emit_runtime_slot_for`, on one sink entry. -/
def writeEntry (rec : LogEntry) (context : TimeContext) (entry : SinkEntry)
    (scratch : ConsumerScratch) : SinkEntry × ConsumerScratch × Written :=
  let rendered := renderPattern cstr (some (resolveCachedSourceBasename cstr)) entry rec
    context.tm context.millis context.elapsed scratch
  (rendered.1, rendered.2, ⟨entry.sink, rendered.1.renderBuffer⟩)

/-- The loop over `custom_sinks`. -/
def writeEntries (rec : LogEntry) (context : TimeContext) :
    List SinkEntry → ConsumerScratch → List SinkEntry × ConsumerScratch × List Written
  | [], scratch => ([], scratch, [])
  | entry :: entries, scratch =>
    let first := writeEntry cstr rec context entry scratch
    let rest := writeEntries rec context entries first.2.1
    (first.1 :: rest.1, rest.2.1, first.2.2 :: rest.2.2)

/-- `emit_runtime_slot_for<NeedsWallClock, NeedsElapsed>` on the route `route` at index `i`. -/
def emitRuntimeSlotFor (needsWallClock needsElapsed : Bool) (emission : Emission)
    (header : RecordSlotHeader) (message : Text) (i : ℕ) (route : RouteState) : Emission :=
  let runtime := emission.runtime
  let entry := makeRuntimeLogEntry runtime.channels header message
  let context := resolveRuntimeTimeContext localtime needsWallClock needsElapsed runtime.anchors
    entry.timestamp runtime.clockType
  let own := writeEntry cstr entry context route.sink emission.scratch
  let custom := writeEntries cstr entry context runtime.customSinks own.2.1
  { runtime :=
      { runtime with
        channels := runtime.channels.set i { route with sink := own.1 }
        customSinks := custom.1 }
    scratch := custom.2.1
    written := emission.written ++ own.2.2 :: custom.2.2 }

/-- `emit_runtime_slot`: a record without a route is skipped, and the union of the
requirements selects the instantiation. -/
def emitRuntimeSlot (emission : Emission) (header : RecordSlotHeader) (message : Text) :
    Emission :=
  match header.route with
  | none => emission
  | some i =>
    match emission.runtime.channels[i]? with
    | none => emission
    | some route =>
      match route.sink.requirements.union emission.runtime.customSinkRequirements with
      | .none => emitRuntimeSlotFor cstr localtime false false emission header message i route
      | .wallClock => emitRuntimeSlotFor cstr localtime true false emission header message i route
      | .elapsed => emitRuntimeSlotFor cstr localtime false true emission header message i route
      | .wallClockElapsed =>
        emitRuntimeSlotFor cstr localtime true true emission header message i route

end Emit

end Unlog.Emit
