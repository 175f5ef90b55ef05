import Unlog.Emit.Slot

/-! # Specialised emission equals full emission

A time field that is not computed is a field no pattern in play shows. -/

namespace Unlog.Emit

open Pattern Render

/-! ## A line depends only on the fields its pattern shows -/

section Congr

variable {σ : Type} (cstr : ℕ → Text) (resolveBasename : Option (BasenameResolver σ))
  (sink : SinkEntry) (entry : LogEntry)

theorem pieceText_congr (piece : PatternPiece) {tm tm' : Tm} {millis millis' : ℕ}
    {elapsed elapsed' : Text} (hour : piece.token = .hour → tm.tmHour = tm'.tmHour)
    (minute : piece.token = .minute → tm.tmMin = tm'.tmMin)
    (second : piece.token = .second → tm.tmSec = tm'.tmSec)
    (hmillis : piece.token = .millis → millis = millis')
    (helapsed : piece.token = .elapsed → elapsed = elapsed') (context : σ) :
    pieceText cstr resolveBasename sink entry tm millis elapsed piece context =
      pieceText cstr resolveBasename sink entry tm' millis' elapsed' piece context := by
  unfold pieceText
  cases htoken : piece.token
  case hour => simp [hour htoken]
  case minute => simp [minute htoken]
  case second => simp [second htoken]
  case millis => simp [hmillis htoken]
  case elapsed => simp [helapsed htoken]
  all_goals rfl

theorem renderPieces_congr {tm tm' : Tm} {millis millis' : ℕ} {elapsed elapsed' : Text}
    (pieces : List PatternPiece)
    (h : ∀ piece ∈ pieces, ∀ context : σ,
      pieceText cstr resolveBasename sink entry tm millis elapsed piece context =
        pieceText cstr resolveBasename sink entry tm' millis' elapsed' piece context)
    (out : Text) (context : σ) :
    renderPieces cstr resolveBasename sink entry tm millis elapsed pieces out context =
      renderPieces cstr resolveBasename sink entry tm' millis' elapsed' pieces out context := by
  induction pieces generalizing out context with
  | nil => rfl
  | cons piece pieces ih =>
      simp only [renderPieces, h piece (by simp)]
      exact ih (fun later hl => h later (by simp [hl])) _ _

/-- Two time contexts that agree on what the text yields render the same line. -/
theorem renderPattern_congr {text : Text} (hp : sink.pattern = formatPatternProgram text)
    (time time' : TimeContext)
    (hwall : Yields text .hour ∨ Yields text .minute ∨ Yields text .second ∨
      Yields text .millis → time.tm = time'.tm ∧ time.millis = time'.millis)
    (helapsed : Yields text .elapsed → time.elapsed = time'.elapsed) (context : σ) :
    renderPattern cstr resolveBasename sink entry time.tm time.millis time.elapsed context =
      renderPattern cstr resolveBasename sink entry time'.tm time'.millis time'.elapsed
        context := by
  have hpieces : ∀ piece ∈ sink.pattern.pieces, ∀ context : σ,
      pieceText cstr resolveBasename sink entry time.tm time.millis time.elapsed piece context =
        pieceText cstr resolveBasename sink entry time'.tm time'.millis time'.elapsed piece
          context := by
    rw [hp]
    intro piece hpiece context
    refine pieceText_congr cstr resolveBasename sink entry piece ?_ ?_ ?_ ?_ ?_ context
    · intro ht
      rw [(hwall (.inl ⟨piece, hpiece, ht⟩)).1]
    · intro ht
      rw [(hwall (.inr (.inl ⟨piece, hpiece, ht⟩))).1]
    · intro ht
      rw [(hwall (.inr (.inr (.inl ⟨piece, hpiece, ht⟩)))).1]
    · intro ht
      rw [(hwall (.inr (.inr (.inr ⟨piece, hpiece, ht⟩)))).2]
    · intro ht
      exact helapsed ⟨piece, hpiece, ht⟩
  simp only [renderPattern]
  rw [renderPieces_congr cstr resolveBasename sink entry _ hpieces]

end Congr

/-! ## What a registration stores -/

/-- A sink entry up to its render buffer, which every line overwrites. -/
def clearBuffer (entry : SinkEntry) : SinkEntry := { entry with renderBuffer := [] }

/-- One call that reaches the stores of `make_channel_route` or `add_sink_route`. -/
inductive Registration where
  | channel (conf : Config) (sink : ℕ)
  | customSink (conf : Config) (sink : ℕ)
  deriving DecidableEq, Repr

def Registration.channel? : Registration → Option (Config × ℕ)
  | .channel conf sink => some (conf, sink)
  | .customSink _ _ => none

def Registration.customSink? : Registration → Option (Config × ℕ)
  | .channel _ _ => none
  | .customSink conf sink => some (conf, sink)

def register (runtime : RuntimeState) : Registration → RuntimeState
  | .channel conf sink => runtime.emplaceChannel conf.name (sinkEntryFor conf (some sink))
  | .customSink conf sink => runtime.addCustomSink (sinkEntryFor conf (some sink))

/-- The runtime a list of registrations leaves behind. -/
def registered (clockType : ClockType) (anchors : StartupAnchors)
    (registrations : List Registration) : RuntimeState :=
  registrations.foldl register { clockType := clockType, anchors := anchors }

/-- The entries of a runtime are, but for their buffers, those its registrations stored, and
the custom requirements are the union over the custom sinks. -/
structure Stored (registrations : List Registration) (runtime : RuntimeState) : Prop where
  channels : runtime.channels.map (fun route => clearBuffer route.sink) =
    (registrations.filterMap Registration.channel?).map fun stored =>
      sinkEntryFor stored.1 (some stored.2)
  customSinks : runtime.customSinks.map clearBuffer =
    (registrations.filterMap Registration.customSink?).map fun stored =>
      sinkEntryFor stored.1 (some stored.2)
  requirements : runtime.customSinkRequirements =
    (runtime.customSinks.map SinkEntry.requirements).foldl TimeRequirements.union .none

theorem stored_register {registrations : List Registration} {runtime : RuntimeState}
    (h : Stored registrations runtime) (registration : Registration) :
    Stored (registrations ++ [registration]) (register runtime registration) := by
  cases registration with
  | channel conf sink =>
      refine ⟨?_, ?_, h.requirements⟩
      · have hchannels := h.channels
        simp_all [register, RuntimeState.emplaceChannel, RouteState.configureLevel,
          Registration.channel?, clearBuffer, sinkEntryFor]
      · simp [register, RuntimeState.emplaceChannel, h.customSinks, Registration.customSink?]
  | customSink conf sink =>
      refine ⟨?_, ?_, ?_⟩
      · simp [register, RuntimeState.addCustomSink, h.channels, Registration.channel?]
      · simp [register, RuntimeState.addCustomSink, h.customSinks, Registration.customSink?,
          clearBuffer, sinkEntryFor]
      · simp [register, RuntimeState.addCustomSink, h.requirements]

theorem stored_registered (clockType : ClockType) (anchors : StartupAnchors)
    (registrations : List Registration) :
    Stored registrations (registered clockType anchors registrations) := by
  induction registrations using List.reverseRecOn with
  | nil => exact ⟨rfl, rfl, rfl⟩
  | append_singleton registrations registration ih =>
      rw [registered, List.foldl_append]
      exact stored_register ih registration

theorem foldl_union_iff (ask : TimeRequirements → Bool)
    (hunion : ∀ lhs rhs : TimeRequirements, ask (lhs.union rhs) = (ask lhs || ask rhs))
    (list : List TimeRequirements) (start : TimeRequirements) :
    ask (list.foldl TimeRequirements.union start) = true ↔
      ask start = true ∨ ∃ requirements ∈ list, ask requirements = true := by
  induction list generalizing start with
  | nil => simp
  | cons first list ih =>
      rw [List.foldl_cons, ih, hunion]
      simp [or_assoc]

/-- A requirement of one custom sink is a requirement of the runtime. -/
theorem Stored.covers {registrations : List Registration} {runtime : RuntimeState}
    (h : Stored registrations runtime) {entry : SinkEntry} (he : entry ∈ runtime.customSinks)
    (ask : TimeRequirements → Bool)
    (hunion : ∀ lhs rhs : TimeRequirements, ask (lhs.union rhs) = (ask lhs || ask rhs))
    (hask : ask entry.requirements = true) : ask runtime.customSinkRequirements = true := by
  rw [h.requirements, foldl_union_iff ask hunion]
  exact .inr ⟨_, List.mem_map_of_mem he, hask⟩

/-- Some configuration stored the entry. -/
def StoredFrom (conf : Config) (entry : SinkEntry) : Prop :=
  entry.pattern = configPatternProgram conf ∧ entry.requirements = configFormatRequirements conf

theorem storedFrom_of_clearBuffer {conf : Config} {sink : Option ℕ} {entry : SinkEntry}
    (h : clearBuffer entry = sinkEntryFor conf sink) : StoredFrom conf entry := by
  constructor
  · exact congrArg SinkEntry.pattern h
  · exact congrArg SinkEntry.requirements h

theorem Stored.custom {registrations : List Registration} {runtime : RuntimeState}
    (h : Stored registrations runtime) {entry : SinkEntry} (he : entry ∈ runtime.customSinks) :
    ∃ conf, StoredFrom conf entry := by
  have hmem : clearBuffer entry ∈ runtime.customSinks.map clearBuffer := List.mem_map_of_mem he
  rw [h.customSinks, List.mem_map] at hmem
  obtain ⟨stored, -, hstored⟩ := hmem
  exact ⟨stored.1, storedFrom_of_clearBuffer hstored.symm⟩

theorem Stored.route {registrations : List Registration} {runtime : RuntimeState}
    (h : Stored registrations runtime) {i : ℕ} {route : RouteState}
    (hr : runtime.channels[i]? = some route) : ∃ conf, StoredFrom conf route.sink := by
  have hmem : clearBuffer route.sink ∈
      runtime.channels.map (fun route => clearBuffer route.sink) :=
    List.mem_map_of_mem (f := fun route => clearBuffer route.sink) (List.mem_of_getElem? hr)
  rw [h.channels, List.mem_map] at hmem
  obtain ⟨stored, -, hstored⟩ := hmem
  exact ⟨stored.1, storedFrom_of_clearBuffer hstored.symm⟩

/-! ## The four instantiations -/

section Emit

variable (cstr : ℕ → Text) (localtime : ℤ → Tm)

theorem writeEntry_resolved {conf : Config} {sink : SinkEntry} (h : StoredFrom conf sink)
    {needsWallClock needsElapsed : Bool}
    (hwall : requiresWallClock sink.requirements = true → needsWallClock = true)
    (helapsed : requiresElapsed sink.requirements = true → needsElapsed = true)
    (entry : LogEntry) (anchors : StartupAnchors) (timestamp : UInt64) (clockType : ClockType)
    (scratch : ConsumerScratch) :
    writeEntry cstr entry (resolveRuntimeTimeContext localtime needsWallClock needsElapsed
        anchors timestamp clockType) sink scratch =
      writeEntry cstr entry (resolveRuntimeTimeContext localtime true true anchors timestamp
        clockType) sink scratch := by
  rw [h.2] at hwall helapsed
  have hrender := renderPattern_congr cstr (some (resolveCachedSourceBasename cstr)) sink entry
    h.1 (resolveRuntimeTimeContext localtime needsWallClock needsElapsed anchors timestamp
      clockType) (resolveRuntimeTimeContext localtime true true anchors timestamp clockType)
  rw [writeEntry, hrender]
  · rfl
  · intro hyields
    have hneeds := hwall ((requiresWallClock_config_iff conf).mpr hyields)
    rw [resolve_tm _ _ _ _ _ _ hneeds, resolve_tm _ _ _ _ _ _ rfl,
      resolve_millis _ _ _ _ _ _ hneeds, resolve_millis _ _ _ _ _ _ rfl]
    exact ⟨rfl, rfl⟩
  · intro hyields
    have hneeds := helapsed ((requiresElapsed_config_iff conf).mpr hyields)
    rw [resolve_elapsed _ _ _ _ _ _ hneeds, resolve_elapsed _ _ _ _ _ _ rfl]

theorem writeEntries_congr {entry : LogEntry} {time time' : TimeContext}
    {sinks : List SinkEntry}
    (h : ∀ sink ∈ sinks, ∀ scratch,
      writeEntry cstr entry time sink scratch = writeEntry cstr entry time' sink scratch)
    (scratch : ConsumerScratch) :
    writeEntries cstr entry time sinks scratch = writeEntries cstr entry time' sinks scratch := by
  induction sinks generalizing scratch with
  | nil => rfl
  | cons sink sinks ih =>
      simp only [writeEntries, h sink (by simp)]
      rw [ih fun later hl => h later (by simp [hl])]

/-- An instantiation that covers the route's and the custom requirements loses nothing. -/
theorem emitRuntimeSlotFor_eq_full {registrations : List Registration} {emission : Emission}
    (h : Stored registrations emission.runtime) {i : ℕ} {route : RouteState}
    (hr : emission.runtime.channels[i]? = some route) {needsWallClock needsElapsed : Bool}
    (hwall : requiresWallClock
      (route.sink.requirements.union emission.runtime.customSinkRequirements) = needsWallClock)
    (helapsed : requiresElapsed
      (route.sink.requirements.union emission.runtime.customSinkRequirements) = needsElapsed)
    (header : RecordSlotHeader) (message : Text) :
    emitRuntimeSlotFor cstr localtime needsWallClock needsElapsed emission header message i
        route =
      emitRuntimeSlotFor cstr localtime true true emission header message i route := by
  rw [requiresWallClock_union] at hwall
  rw [requiresElapsed_union] at helapsed
  have hroute : ∀ entry timestamp scratch,
      writeEntry cstr entry (resolveRuntimeTimeContext localtime needsWallClock needsElapsed
        emission.runtime.anchors timestamp emission.runtime.clockType) route.sink scratch =
      writeEntry cstr entry (resolveRuntimeTimeContext localtime true true
        emission.runtime.anchors timestamp emission.runtime.clockType) route.sink scratch := by
    intro entry timestamp scratch
    obtain ⟨conf, hconf⟩ := h.route hr
    refine writeEntry_resolved cstr localtime hconf ?_ ?_ entry _ timestamp _ scratch
    · intro hask
      simpa [hask] using hwall.symm
    · intro hask
      simpa [hask] using helapsed.symm
  have hcustom : ∀ entry timestamp, ∀ sink ∈ emission.runtime.customSinks, ∀ scratch,
      writeEntry cstr entry (resolveRuntimeTimeContext localtime needsWallClock needsElapsed
        emission.runtime.anchors timestamp emission.runtime.clockType) sink scratch =
      writeEntry cstr entry (resolveRuntimeTimeContext localtime true true
        emission.runtime.anchors timestamp emission.runtime.clockType) sink scratch := by
    intro entry timestamp sink hsink scratch
    obtain ⟨conf, hconf⟩ := h.custom hsink
    refine writeEntry_resolved cstr localtime hconf ?_ ?_ entry _ timestamp _ scratch
    · intro hask
      simpa [h.covers hsink _ requiresWallClock_union hask] using hwall.symm
    · intro hask
      simpa [h.covers hsink _ requiresElapsed_union hask] using helapsed.symm
  simp only [emitRuntimeSlotFor, hroute, writeEntries_congr cstr (hcustom _ _)]

/-- Whichever instantiation is chosen, the emission is that of `<true, true>`. -/
theorem emitRuntimeSlot_of_route {registrations : List Registration} {emission : Emission}
    (h : Stored registrations emission.runtime) {header : RecordSlotHeader} {i : ℕ}
    {route : RouteState} (hi : header.route = some i)
    (hr : emission.runtime.channels[i]? = some route) (message : Text) :
    emitRuntimeSlot cstr localtime emission header message =
      emitRuntimeSlotFor cstr localtime true true emission header message i route := by
  simp only [emitRuntimeSlot, hi, hr]
  cases hu : route.sink.requirements.union emission.runtime.customSinkRequirements with
  | none | wallClock | elapsed =>
      exact emitRuntimeSlotFor_eq_full cstr localtime h hr (congrArg requiresWallClock hu)
        (congrArg requiresElapsed hu) header message
  | wallClockElapsed => rfl

/-! ## Whole runs of emissions -/

theorem clearBuffer_writeEntry (entry : LogEntry) (time : TimeContext) (sink : SinkEntry)
    (scratch : ConsumerScratch) :
    clearBuffer (writeEntry cstr entry time sink scratch).1 = clearBuffer sink := rfl

theorem sink_writeEntry (entry : LogEntry) (time : TimeContext) (sink : SinkEntry)
    (scratch : ConsumerScratch) :
    (writeEntry cstr entry time sink scratch).2.2.sink = sink.sink := rfl

theorem clearBuffer_writeEntries (entry : LogEntry) (time : TimeContext)
    (sinks : List SinkEntry) (scratch : ConsumerScratch) :
    (writeEntries cstr entry time sinks scratch).1.map clearBuffer = sinks.map clearBuffer := by
  induction sinks generalizing scratch with
  | nil => rfl
  | cons sink sinks ih => simp [writeEntries, clearBuffer_writeEntry, ih]

theorem sink_writeEntries (entry : LogEntry) (time : TimeContext) (sinks : List SinkEntry)
    (scratch : ConsumerScratch) :
    (writeEntries cstr entry time sinks scratch).2.2.map Written.sink =
      sinks.map SinkEntry.sink := by
  induction sinks generalizing scratch with
  | nil => rfl
  | cons sink sinks ih => simp [writeEntries, sink_writeEntry, ih]

theorem requirements_of_clearBuffer {sinks sinks' : List SinkEntry}
    (h : sinks'.map clearBuffer = sinks.map clearBuffer) :
    sinks'.map SinkEntry.requirements = sinks.map SinkEntry.requirements := by
  simpa [Function.comp_def, clearBuffer] using congrArg (List.map SinkEntry.requirements) h

/-- An emission writes one line to the route's sink, then one to each custom sink. -/
theorem sinks_emitRuntimeSlotFor (needsWallClock needsElapsed : Bool) (emission : Emission)
    (header : RecordSlotHeader) (message : Text) (i : ℕ) (route : RouteState) :
    ∃ lines, (emitRuntimeSlotFor cstr localtime needsWallClock needsElapsed emission header
        message i route).written = emission.written ++ lines ∧
      lines.map Written.sink =
        route.sink.sink :: emission.runtime.customSinks.map SinkEntry.sink := by
  refine ⟨_, rfl, ?_⟩
  rw [List.map_cons, sink_writeEntry, sink_writeEntries]

theorem stored_emitRuntimeSlotFor {registrations : List Registration} {emission : Emission}
    (h : Stored registrations emission.runtime) {i : ℕ} {route : RouteState}
    (hr : emission.runtime.channels[i]? = some route) (needsWallClock needsElapsed : Bool)
    (header : RecordSlotHeader) (message : Text) :
    Stored registrations (emitRuntimeSlotFor cstr localtime needsWallClock needsElapsed emission
      header message i route).runtime := by
  have hcustom := clearBuffer_writeEntries cstr
  refine ⟨?_, ?_, ?_⟩
  · obtain ⟨hlt, rfl⟩ := List.getElem?_eq_some_iff.mp hr
    rw [← h.channels]
    simp only [emitRuntimeSlotFor, List.map_set, clearBuffer_writeEntry]
    rw [← List.map_set, List.set_getElem_self]
  · rw [← h.customSinks]
    exact hcustom _ _ _ _
  · have hreq := h.requirements
    rw [← requirements_of_clearBuffer (hcustom _ _ _ _)] at hreq
    exact hreq

/-- The consumer emits a list of records one after the other. -/
def emitRuntimeSlots (emission : Emission) (records : List (RecordSlotHeader × Text)) :
    Emission :=
  records.foldl (fun emission record => emitRuntimeSlot cstr localtime emission record.1 record.2)
    emission

theorem stored_emitRuntimeSlot {registrations : List Registration} {emission : Emission}
    (h : Stored registrations emission.runtime) (header : RecordSlotHeader) (message : Text) :
    Stored registrations (emitRuntimeSlot cstr localtime emission header message).runtime := by
  cases hi : header.route with
  | none => simpa [emitRuntimeSlot, hi] using h
  | some i =>
      cases hr : emission.runtime.channels[i]? with
      | none => simpa [emitRuntimeSlot, hi, hr] using h
      | some route =>
          rw [emitRuntimeSlot_of_route cstr localtime h hi hr]
          exact stored_emitRuntimeSlotFor cstr localtime h hr true true header message

theorem stored_emitRuntimeSlots {registrations : List Registration}
    (records : List (RecordSlotHeader × Text)) {emission : Emission}
    (h : Stored registrations emission.runtime) :
    Stored registrations (emitRuntimeSlots cstr localtime emission records).runtime := by
  induction records generalizing emission with
  | nil => exact h
  | cons record records ih =>
      exact ih (stored_emitRuntimeSlot cstr localtime h record.1 record.2)

theorem Stored.getElem? {registrations : List Registration} {runtime : RuntimeState}
    (h : Stored registrations runtime) {i : ℕ} {conf : Config} {sink : ℕ}
    (hc : (registrations.filterMap Registration.channel?)[i]? = some (conf, sink)) :
    ∃ route, runtime.channels[i]? = some route ∧
      clearBuffer route.sink = sinkEntryFor conf (some sink) := by
  have hmap := congrArg (fun list => list[i]?) h.channels
  simp only [List.getElem?_map, hc, Option.map_some] at hmap
  exact Option.map_eq_some_iff.mp hmap

/-- Whatever was registered and emitted before, a record of a registered channel is emitted
as `emit_runtime_slot_for<true, true>` would, one line for each sink in order. -/
theorem emitRuntimeSlot_eq_full (clockType : ClockType) (anchors : StartupAnchors)
    (registrations : List Registration) (records : List (RecordSlotHeader × Text))
    (header : RecordSlotHeader) (message : Text) (i : ℕ) (conf : Config) (sink : ℕ)
    (hi : header.route = some i)
    (hc : (registrations.filterMap Registration.channel?)[i]? = some (conf, sink)) :
    let start : Emission := ⟨registered clockType anchors registrations, {}, []⟩
    let emission := emitRuntimeSlots cstr localtime start records
    ∃ route lines, emission.runtime.channels[i]? = some route ∧
      emitRuntimeSlot cstr localtime emission header message =
        emitRuntimeSlotFor cstr localtime true true emission header message i route ∧
      (emitRuntimeSlot cstr localtime emission header message).written =
        emission.written ++ lines ∧
      lines.map Written.sink = some sink ::
        (registrations.filterMap Registration.customSink?).map fun stored => some stored.2 := by
  intro start emission
  have hstored : Stored registrations emission.runtime :=
    stored_emitRuntimeSlots cstr localtime records
      (stored_registered clockType anchors registrations)
  obtain ⟨route, hr, hclear⟩ := hstored.getElem? hc
  have hfull := emitRuntimeSlot_of_route cstr localtime hstored hi hr message
  obtain ⟨lines, hlines, hsinks⟩ :=
    sinks_emitRuntimeSlotFor cstr localtime true true emission header message i route
  refine ⟨route, lines, hr, hfull, by rw [hfull, hlines], ?_⟩
  have hroute : route.sink.sink = some sink := congrArg SinkEntry.sink hclear
  have hcustom := congrArg (List.map SinkEntry.sink) hstored.customSinks
  rw [hsinks, hroute]
  simpa [Function.comp_def, clearBuffer, sinkEntryFor] using hcustom

end Emit

/-- A default channel with one custom sink: a record reaches sink 0, then sink 1. -/
theorem emitRuntimeSlot_eq_full_pair :
    let start : Emission := ⟨registered .steady ⟨0, 0⟩
      [.channel {} 0, .customSink { pattern := .custom (ascii "%v") } 1], {}, []⟩
    let emission := emitRuntimeSlots (fun _ => []) (fun _ => {}) start []
    ∃ route lines, emission.runtime.channels[0]? = some route ∧
      emitRuntimeSlot (fun _ => []) (fun _ => {}) emission { route := some 0 } [] =
        emitRuntimeSlotFor (fun _ => []) (fun _ => {}) true true emission { route := some 0 } []
          0 route ∧
      (emitRuntimeSlot (fun _ => []) (fun _ => {}) emission { route := some 0 } []).written =
        emission.written ++ lines ∧
      lines.map Written.sink = [some 0, some 1] :=
  emitRuntimeSlot_eq_full (fun _ => []) (fun _ => {}) .steady ⟨0, 0⟩
    [.channel {} 0, .customSink { pattern := .custom (ascii "%v") } 1] [] { route := some 0 } []
    0 {} 0 rfl rfl

end Unlog.Emit
