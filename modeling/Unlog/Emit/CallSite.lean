import Unlog.Emit.Capture
import Unlog.Render.Clock

/-! # Which lines show what the call site saw

A channel captures what its own pattern shows; a custom sink renders whatever its pattern
asks for. -/

namespace Unlog.Emit

open Pattern Render

/-! ## Log calls -/

/-- A published log call: `now` is the reading of the configured clock, `message` and
`truncated` what `write_record_slot` left in the slot. -/
structure LogCall where
  route : ℕ
  level : LogLevel
  now : ℤ
  location : SourceLoc
  message : Text
  truncated : Bool := false
  deriving DecidableEq, Repr

def clockNowNs (now : ℤ) : UInt64 := UInt64.ofInt now

/-- The header `produce_runtime_record` constructs under a channel's policy. -/
def captureHeader (policy : ChannelPolicy) (call : LogCall) : RecordSlotHeader where
  route := some call.route
  timestamp := if policy.timeRequirements ≠ .none then clockNowNs call.now else 0
  sourceFile := if policy.captureSourceFile then call.location.filename else none
  sourceLine := if policy.captureSourceLine then call.location.line else 0
  payloadSize := call.message.length
  level := encodeLevel call.level
  truncated := call.truncated

theorem ticksToNs_clockNowNs {now : ℤ} (h : 0 ≤ now ∧ now < 2 ^ 63) :
    ticksToNs (clockNowNs now) = now := by
  have htoNat : (clockNowNs now).toNat = now.toNat := by
    rw [clockNowNs, UInt64.ofInt, UInt64.toNat_ofNat']
    omega
  rw [ticksToNs, htoNat, if_neg (by simp [maxTicks]; omega)]
  omega

section Calls

variable (cstr : ℕ → Text) (localtime : ℤ → Tm)

/-- The consumer emits the record of one call of the registered channels. -/
def emitCall (registrations : List Registration) (emission : Emission) (call : LogCall) :
    Emission :=
  match (registrations.filterMap Registration.channel?)[call.route]? with
  | none => emission
  | some channel =>
    emitRuntimeSlot cstr localtime emission (captureHeader (channelPolicyFor channel.1) call)
      call.message

def emitCalls (registrations : List Registration) (emission : Emission)
    (calls : List LogCall) : Emission :=
  calls.foldl (emitCall cstr localtime registrations) emission

/-! ## What the call site saw -/

/-- The wall-clock instant of a clock reading. -/
def instantOf (anchors : StartupAnchors) (now : ℤ) : ClockType → ℤ
  | .system => now
  | .steady => anchors.systemNs + (now - anchors.steadyNs)

/-- The time since startup of a clock reading. -/
def sinceStartup (anchors : StartupAnchors) (now : ℤ) : ClockType → ℤ
  | .system => now - anchors.systemNs
  | .steady => now - anchors.steadyNs

variable (anchors : StartupAnchors) (clockType : ClockType)

def callSiteEntry (name : Text) (call : LogCall) : LogEntry where
  loggerName := name
  level := call.level
  sourceLocation := call.location
  message := call.message
  timestamp := clockNowNs call.now

/-- The line of a call: its sink's pattern, read with the instant, base name and line number
of the call. -/
def callSiteLine (sink : SinkEntry) (name : Text) (call : LogCall) : Text :=
  let instant := instantOf anchors call.now clockType
  let elapsed := sinceStartup anchors call.now clockType
  (interpret cstr (some (resolveSourceBasename cstr)) sink (callSiteEntry name call)
    (localTime localtime instant) (millisPart instant) ((elapsedText elapsed).take 32)
    sink.pattern.text ()).1 ++ [newline]

end Calls

/-- The fields that a pattern shows are those of the call in the record: the instant and the time
since startup that its timestamp denotes, its file and its line. -/
structure Denotes (clockType : ClockType) (anchors : StartupAnchors) (pattern : Text)
    (header : RecordSlotHeader) (call : LogCall) : Prop where
  wallClock : Yields pattern .hour ∨ Yields pattern .minute ∨ Yields pattern .second ∨
      Yields pattern .millis →
    wallClockInstant anchors header.timestamp clockType = instantOf anchors call.now clockType
  elapsed : Yields pattern .elapsed →
    elapsedSince anchors header.timestamp clockType = sinceStartup anchors call.now clockType
  sourceFile : Yields pattern .sourceFile → header.sourceFile = call.location.filename
  sourceLine : Yields pattern .sourceLine → header.sourceLine = call.location.line

/-- The `<NeedsWallClock, NeedsElapsed>` of a route's records. -/
def routeRequirements (runtime : RuntimeState) (route : RouteState) : TimeRequirements :=
  route.sink.requirements.union runtime.customSinkRequirements

/-- Every line of a call with this reading, by the route's sink and by every custom sink, is the
call's, and the record it is made from denotes the call; no `int64_t` overflows on the way. -/
def RendersCallSites (localtime : ℤ → Tm) (registrations : List Registration)
    (clockType : ClockType) (anchors : StartupAnchors) (now : ℤ) : Prop :=
  ∀ (cstr : ℕ → Text) (calls : List LogCall) (call : LogCall) (channel : Config × ℕ),
    call.now = now → (registrations.filterMap Registration.channel?)[call.route]? = some channel →
    let start : Emission := ⟨registered clockType anchors registrations, {}, []⟩
    let emission := emitCalls cstr localtime registrations start calls
    let header := captureHeader (channelPolicyFor channel.1) call
    ∃ route, emission.runtime.channels[call.route]? = some route ∧
      let requirements := routeRequirements emission.runtime route
      let sinks := route.sink :: emission.runtime.customSinks
      (emitCall cstr localtime registrations emission call).written =
        emission.written ++ (sinks.map fun sink =>
          ⟨sink.sink, callSiteLine cstr localtime anchors clockType sink route.name call⟩) ∧
      (checkedResolve localtime (requiresWallClock requirements) (requiresElapsed requirements)
        anchors header.timestamp clockType).isSome = true ∧
      ∀ sink ∈ sinks, Denotes clockType anchors sink.pattern.text header call

/-- The reading is the one the record's timestamp decodes to: a captured one is not negative, and
a missing one reads as 0. -/
def KeepsReading (channel : Config) (now : ℤ) : Prop :=
  if (channelPolicyFor channel).timeRequirements ≠ .none then 0 ≤ now else now = 0

instance (channel : Config) (now : ℤ) : Decidable (KeepsReading channel now) :=
  inferInstanceAs (Decidable
    (if (channelPolicyFor channel).timeRequirements ≠ .none then 0 ≤ now else now = 0))

/-- What the sink's configuration shows, the channel's records carry, and it is in the range of
`int64_t`. -/
structure Carries (clockType : ClockType) (anchors : StartupAnchors) (now : ℤ)
    (channel shown : Config) : Prop where
  wallClock : requiresWallClock (configFormatRequirements shown) = true →
    KeepsReading channel now ∧ (clockType = .steady →
      FitsInt64 (now - anchors.steadyNs) ∧
        FitsInt64 (anchors.systemNs + (now - anchors.steadyNs)))
  elapsed : requiresElapsed (configFormatRequirements shown) = true →
    KeepsReading channel now ∧ FitsInt64 (sinceStartup anchors now clockType)
  sourceFile : shown.pattern.captureSourceFile = true →
    (channelPolicyFor channel).captureSourceFile = true
  sourceLine : shown.pattern.captureSourceLine = true →
    (channelPolicyFor channel).captureSourceLine = true

/-! ## The lines of one emission -/

section Lines

variable (cstr : ℕ → Text) (localtime : ℤ → Tm)

/-- What holds of the consumer between two records of a runtime. -/
structure Consuming (registrations : List Registration) (clockType : ClockType)
    (anchors : StartupAnchors) (emission : Emission) : Prop where
  stored : Stored registrations emission.runtime
  coherent : emission.scratch.Coherent cstr
  clockType_eq : emission.runtime.clockType = clockType
  anchors_eq : emission.runtime.anchors = anchors

variable {registrations : List Registration} {clockType : ClockType} {anchors : StartupAnchors}
  {emission : Emission}

theorem consuming_registered (registrations : List Registration) (clockType : ClockType)
    (anchors : StartupAnchors) :
    Consuming cstr registrations clockType anchors
      ⟨registered clockType anchors registrations, {}, []⟩ := by
  have hfixed : (registered clockType anchors registrations).clockType = clockType ∧
      (registered clockType anchors registrations).anchors = anchors := by
    induction registrations using List.reverseRecOn with
    | nil => exact ⟨rfl, rfl⟩
    | append_singleton registrations registration ih =>
        rw [registered, List.foldl_append]
        cases registration <;> exact ih
  exact ⟨stored_registered clockType anchors registrations, coherent_empty cstr, hfixed.1,
    hfixed.2⟩

/-- A record of a route is shown by the route's sink and by every custom sink. -/
theorem written_emitRuntimeSlot (h : Consuming cstr registrations clockType anchors emission)
    {header : RecordSlotHeader} {i : ℕ} {route : RouteState} (hi : header.route = some i)
    (hr : emission.runtime.channels[i]? = some route) (message : Text) :
    (emitRuntimeSlot cstr localtime emission header message).written =
        emission.written ++ (route.sink :: emission.runtime.customSinks).map (fun sink =>
          ⟨sink.sink, shownLine cstr localtime anchors clockType sink
            (makeRuntimeLogEntry emission.runtime.channels header message)⟩) ∧
      Consuming cstr registrations clockType anchors
        (emitRuntimeSlot cstr localtime emission header message) := by
  rw [emitRuntimeSlot_of_route cstr localtime h.stored hi hr]
  have hstored := stored_emitRuntimeSlotFor cstr localtime h.stored hr true true header message
  obtain ⟨conf, hconf⟩ := h.stored.route hr
  have hcustoms : ∀ sink ∈ emission.runtime.customSinks, ∃ conf, StoredFrom conf sink :=
    fun _ hs => h.stored.custom hs
  obtain ⟨-, hcoherent, rfl, rfl⟩ := h
  obtain ⟨hown, hscratch⟩ := writeEntry_coherent cstr localtime emission.runtime.anchors
    emission.runtime.clockType hconf hcoherent
    (makeRuntimeLogEntry emission.runtime.channels header message)
  obtain ⟨hcustom, hdone⟩ := writeEntries_coherent cstr localtime emission.runtime.anchors
    emission.runtime.clockType hcustoms hscratch
    (makeRuntimeLogEntry emission.runtime.channels header message)
  refine ⟨?_, hstored, hdone, rfl, rfl⟩
  rw [List.map_cons, ← hown, ← hcustom]
  rfl

theorem consuming_emitCall (h : Consuming cstr registrations clockType anchors emission)
    (call : LogCall) :
    Consuming cstr registrations clockType anchors
      (emitCall cstr localtime registrations emission call) := by
  unfold emitCall
  cases hc : (registrations.filterMap Registration.channel?)[call.route]? with
  | none => exact h
  | some channel =>
      obtain ⟨route, hr, -⟩ := h.stored.getElem? hc
      exact (written_emitRuntimeSlot cstr localtime h rfl hr call.message).2

theorem consuming_emitCalls (calls : List LogCall)
    (h : Consuming cstr registrations clockType anchors emission) :
    Consuming cstr registrations clockType anchors
      (emitCalls cstr localtime registrations emission calls) := by
  induction calls generalizing emission with
  | nil => exact h
  | cons call calls ih => exact ih (consuming_emitCall cstr localtime h call)

/-- The channel behind a route of the runtime. -/
theorem Stored.channel {registrations : List Registration} {runtime : RuntimeState}
    (h : Stored registrations runtime) {i : ℕ} {route : RouteState}
    (hr : runtime.channels[i]? = some route) :
    ∃ conf sink, (registrations.filterMap Registration.channel?)[i]? = some (conf, sink) ∧
      clearBuffer route.sink = sinkEntryFor conf (some sink) := by
  have hmap := congrArg (fun list => list[i]?) h.channels
  simp only [List.getElem?_map, hr, Option.map_some] at hmap
  obtain ⟨⟨conf, sink⟩, hc, heq⟩ := Option.map_eq_some_iff.mp hmap.symm
  exact ⟨conf, sink, hc, heq.symm⟩

theorem written_emitCall (h : Consuming cstr registrations clockType anchors emission)
    (call : LogCall) {route : RouteState}
    (hr : emission.runtime.channels[call.route]? = some route) :
    ∃ conf sink, (registrations.filterMap Registration.channel?)[call.route]? = some (conf, sink) ∧
      (emitCall cstr localtime registrations emission call).written =
        emission.written ++ (route.sink :: emission.runtime.customSinks).map fun sink =>
          ⟨sink.sink, shownLine cstr localtime anchors clockType sink
            (makeRuntimeLogEntry emission.runtime.channels
              (captureHeader (channelPolicyFor conf) call) call.message)⟩ := by
  obtain ⟨conf, sink, hc, -⟩ := h.stored.channel hr
  refine ⟨conf, sink, hc, ?_⟩
  rw [emitCall, hc]
  exact (written_emitRuntimeSlot cstr localtime h rfl hr call.message).1

end Lines

/-! ## Captured fields -/

/-- The entry the consumer rebuilds for a call captured under a policy. -/
def capturedEntry (policy : ChannelPolicy) (name : Text) (call : LogCall) : LogEntry :=
  { callSiteEntry name call with
    sourceLocation :=
      ⟨if policy.captureSourceFile then call.location.filename else none,
        if policy.captureSourceLine then call.location.line else 0⟩
    timestamp := if policy.timeRequirements ≠ .none then clockNowNs call.now else 0 }

theorem makeRuntimeLogEntry_captureHeader {channels : List RouteState} {call : LogCall}
    {route : RouteState} (hr : channels[call.route]? = some route) (policy : ChannelPolicy) :
    makeRuntimeLogEntry channels (captureHeader policy call) call.message =
      capturedEntry policy route.name call := by
  simp [makeRuntimeLogEntry, captureHeader, capturedEntry, callSiteEntry, hr]

/-! ## From the record to the line -/

theorem StoredFrom.pattern_eq {conf : Config} {sink : SinkEntry} (h : StoredFrom conf sink) :
    sink.pattern = formatPatternProgram sink.pattern.text := by
  rw [h.text_eq]
  exact h.1

/-- A line shows the call as soon as its record denotes it. -/
theorem shownLine_eq_callSiteLine (cstr : ℕ → Text) (localtime : ℤ → Tm) {clockType : ClockType}
    {anchors : StartupAnchors} {conf : Config} {sink : SinkEntry} (hs : StoredFrom conf sink)
    {policy : ChannelPolicy} {call : LogCall} (name : Text)
    (h : Denotes clockType anchors sink.pattern.text (captureHeader policy call) call) :
    shownLine cstr localtime anchors clockType sink (capturedEntry policy name call) =
      callSiteLine cstr localtime anchors clockType sink name call := by
  have hyields : ∀ piece ∈ sink.pattern.pieces, Yields sink.pattern.text piece.token := by
    intro piece hpiece
    rw [hs.pattern_eq] at hpiece
    exact ⟨piece, hpiece, rfl⟩
  rw [shownLine_eq_flatMap cstr localtime anchors clockType hs, callSiteLine,
    interpret_eq_flatMap cstr hs]
  refine congrArg (· ++ [newline]) (List.flatMap_congr fun piece hpiece => ?_)
  have hshows := hyields piece hpiece
  simp only [shownPiece, pieceText, resolve_tm _ _ _ _ _ _ rfl, resolve_millis _ _ _ _ _ _ rfl,
    resolve_elapsed _ _ _ _ _ _ rfl]
  cases htoken : piece.token <;> rw [htoken] at hshows
  case hour => rw [← h.wallClock (.inl hshows)]; rfl
  case minute => rw [← h.wallClock (.inr (.inl hshows))]; rfl
  case second => rw [← h.wallClock (.inr (.inr (.inl hshows)))]; rfl
  case millis => rw [← h.wallClock (.inr (.inr (.inr hshows)))]; rfl
  case elapsed => rw [← h.elapsed hshows]; rfl
  case sourceFile =>
    have hfile := h.sourceFile hshows
    simp only [captureHeader] at hfile
    simp only [sourceFileText, capturedEntry, callSiteEntry, hfile]
  case sourceLine =>
    have hline := h.sourceLine hshows
    simp only [captureHeader] at hline
    simp only [capturedEntry, callSiteEntry, hline]
  all_goals rfl

/-! ## What a record carries -/

theorem wallClockInstant_eq_iff {anchors : StartupAnchors} {timestamp : UInt64} {now : ℤ}
    {clockType : ClockType} :
    wallClockInstant anchors timestamp clockType = instantOf anchors now clockType ↔
      ticksToNs timestamp = now := by
  cases clockType with
  | system => exact Iff.rfl
  | steady =>
      simp only [wallClockInstant, instantOf]
      omega

theorem elapsedSince_eq_iff {anchors : StartupAnchors} {timestamp : UInt64} {now : ℤ}
    {clockType : ClockType} :
    elapsedSince anchors timestamp clockType = sinceStartup anchors now clockType ↔
      ticksToNs timestamp = now := by
  cases clockType <;> simp only [elapsedSince, sinceStartup] <;> omega

theorem ticksToNs_nonneg (ticks : UInt64) : 0 ≤ ticksToNs ticks := by
  unfold ticksToNs
  split <;> omega

/-- The record of a call has the reading of the call exactly if the channel keeps it. -/
theorem ticksToNs_captureHeader_iff {channel : Config} {call : LogCall}
    (hnow : FitsInt64 call.now) :
    ticksToNs (captureHeader (channelPolicyFor channel) call).timestamp = call.now ↔
      KeepsReading channel call.now := by
  simp only [captureHeader]
  unfold KeepsReading
  by_cases hcaptured : (channelPolicyFor channel).timeRequirements ≠ .none
  · rw [if_pos hcaptured, if_pos hcaptured]
    refine ⟨fun heq => heq ▸ ticksToNs_nonneg _, fun hnonneg => ?_⟩
    exact ticksToNs_clockNowNs ⟨hnonneg, hnow.2⟩
  · rw [if_neg hcaptured, if_neg hcaptured]
    exact eq_comm

/-- The sinks of a route, up to their buffers, are those of its channel and of the custom
sinks. -/
theorem Stored.sinks {registrations : List Registration} {runtime : RuntimeState}
    (h : Stored registrations runtime) {i : ℕ} {route : RouteState} {channel : Config × ℕ}
    (hc : (registrations.filterMap Registration.channel?)[i]? = some channel)
    (hr : runtime.channels[i]? = some route) :
    (route.sink :: runtime.customSinks).map clearBuffer =
      (channel :: registrations.filterMap Registration.customSink?).map fun stored =>
        sinkEntryFor stored.1 (some stored.2) := by
  obtain ⟨conf, sink, hown, hclear⟩ := h.channel hr
  obtain rfl : channel = (conf, sink) := by simpa using hc.symm.trans hown
  rw [List.map_cons, List.map_cons, h.customSinks, hclear]

theorem Stored.shown {registrations : List Registration} {runtime : RuntimeState}
    (h : Stored registrations runtime) {i : ℕ} {route : RouteState} {channel : Config × ℕ}
    (hc : (registrations.filterMap Registration.channel?)[i]? = some channel)
    (hr : runtime.channels[i]? = some route) {sink : SinkEntry}
    (hsink : sink ∈ route.sink :: runtime.customSinks) :
    ∃ shown ∈ channel :: registrations.filterMap Registration.customSink?,
      StoredFrom shown.1 sink := by
  have hmem := List.mem_map_of_mem (f := clearBuffer) hsink
  rw [h.sinks hc hr, List.mem_map] at hmem
  obtain ⟨shown, hshown, hclear⟩ := hmem
  exact ⟨shown, hshown, storedFrom_of_clearBuffer hclear.symm⟩

theorem Stored.exists_sink {registrations : List Registration} {runtime : RuntimeState}
    (h : Stored registrations runtime) {i : ℕ} {route : RouteState} {channel shown : Config × ℕ}
    (hc : (registrations.filterMap Registration.channel?)[i]? = some channel)
    (hr : runtime.channels[i]? = some route)
    (hshown : shown ∈ channel :: registrations.filterMap Registration.customSink?) :
    ∃ sink ∈ route.sink :: runtime.customSinks, StoredFrom shown.1 sink := by
  have hmem := List.mem_map_of_mem (f := fun stored : Config × ℕ =>
    sinkEntryFor stored.1 (some stored.2)) hshown
  rw [← h.sinks hc hr, List.mem_map] at hmem
  obtain ⟨sink, hsink, hclear⟩ := hmem
  exact ⟨sink, hsink, storedFrom_of_clearBuffer hclear⟩

/-- A record is resolved for what one of its sinks requires. -/
theorem Stored.requires_iff {registrations : List Registration} {runtime : RuntimeState}
    (h : Stored registrations runtime) (route : RouteState) (ask : TimeRequirements → Bool)
    (hunion : ∀ lhs rhs : TimeRequirements, ask (lhs.union rhs) = (ask lhs || ask rhs))
    (hnone : ask .none = false) :
    ask (routeRequirements runtime route) = true ↔
      ∃ sink ∈ route.sink :: runtime.customSinks, ask sink.requirements = true := by
  rw [routeRequirements, hunion, Bool.or_eq_true, h.requirements, foldl_union_iff ask hunion]
  simp [hnone]

/-- The tokens that need the wall clock and the elapsed time, by the requirements of the sink. -/
theorem StoredFrom.requiresWallClock_iff {conf : Config} {sink : SinkEntry}
    (h : StoredFrom conf sink) :
    requiresWallClock sink.requirements = true ↔
      Yields sink.pattern.text .hour ∨ Yields sink.pattern.text .minute ∨
        Yields sink.pattern.text .second ∨ Yields sink.pattern.text .millis := by
  rw [h.2, h.text_eq, requiresWallClock_config_iff]

theorem StoredFrom.requiresElapsed_iff {conf : Config} {sink : SinkEntry}
    (h : StoredFrom conf sink) :
    requiresElapsed sink.requirements = true ↔ Yields sink.pattern.text .elapsed := by
  rw [h.2, h.text_eq, requiresElapsed_config_iff]

/-! ## If every record carries what its sinks show -/

theorem denotes_of_carries {clockType : ClockType} {anchors : StartupAnchors} {sink : SinkEntry}
    {channel shown : Config} {call : LogCall} (hnow : FitsInt64 call.now)
    (hs : StoredFrom shown sink) (h : Carries clockType anchors call.now channel shown) :
    Denotes clockType anchors sink.pattern.text
      (captureHeader (channelPolicyFor channel) call) call where
  wallClock hyields := by
    have hrequires := hs.requiresWallClock_iff.mpr hyields
    rw [hs.2] at hrequires
    exact wallClockInstant_eq_iff.mpr
      ((ticksToNs_captureHeader_iff hnow).mpr (h.wallClock hrequires).1)
  elapsed hyields := by
    have hrequires := hs.requiresElapsed_iff.mpr hyields
    rw [hs.2] at hrequires
    exact elapsedSince_eq_iff.mpr
      ((ticksToNs_captureHeader_iff hnow).mpr (h.elapsed hrequires).1)
  sourceFile hyields := by
    rw [hs.text_eq] at hyields
    exact if_pos (h.sourceFile ((captureSourceFile_iff shown).mpr hyields))
  sourceLine hyields := by
    rw [hs.text_eq] at hyields
    exact if_pos (h.sourceLine ((captureSourceLine_iff shown).mpr hyields))

/-- What the sinks of a route require is resolved in range. -/
theorem inRange_of_carries {clockType : ClockType} {anchors : StartupAnchors} {channel : Config}
    {call : LogCall} (hnow : FitsInt64 call.now) {requirements : TimeRequirements}
    (hwall : requiresWallClock requirements = true → ∃ shown,
      requiresWallClock (configFormatRequirements shown) = true ∧
        Carries clockType anchors call.now channel shown)
    (helapsed : requiresElapsed requirements = true → ∃ shown,
      requiresElapsed (configFormatRequirements shown) = true ∧
        Carries clockType anchors call.now channel shown) :
    InRange (requiresWallClock requirements) (requiresElapsed requirements) anchors
      (captureHeader (channelPolicyFor channel) call).timestamp clockType := by
  cases clockType with
  | system =>
      intro hneeds
      obtain ⟨shown, hrequires, hcarries⟩ := helapsed hneeds
      obtain ⟨hkeeps, hfits⟩ := hcarries.elapsed hrequires
      rw [(ticksToNs_captureHeader_iff hnow).mpr hkeeps]
      exact hfits
  | steady =>
      intro hneeds
      rcases Bool.or_eq_true _ _ |>.mp hneeds with hneeds | hneeds
      · obtain ⟨shown, hrequires, hcarries⟩ := hwall hneeds
        obtain ⟨hkeeps, hfits⟩ := hcarries.wallClock hrequires
        rw [(ticksToNs_captureHeader_iff hnow).mpr hkeeps]
        exact ⟨(hfits rfl).1, fun _ => (hfits rfl).2⟩
      · obtain ⟨shown, hrequires, hcarries⟩ := helapsed hneeds
        obtain ⟨hkeeps, hfits⟩ := hcarries.elapsed hrequires
        rw [(ticksToNs_captureHeader_iff hnow).mpr hkeeps]
        refine ⟨hfits, fun hneeds => ?_⟩
        obtain ⟨shown, hrequires, hcarries⟩ := hwall hneeds
        exact ((hcarries.wallClock hrequires).2 rfl).2

theorem rendersCallSites_of_carries (localtime : ℤ → Tm) {registrations : List Registration}
    {clockType : ClockType} {anchors : StartupAnchors} {now : ℤ} (hnow : FitsInt64 now)
    (h : ∀ channel ∈ registrations.filterMap Registration.channel?,
      ∀ shown ∈ channel :: registrations.filterMap Registration.customSink?,
        Carries clockType anchors now channel.1 shown.1) :
    RendersCallSites localtime registrations clockType anchors now := by
  rintro cstr calls call channel rfl hc start emission header
  have hconsuming : Consuming cstr registrations clockType anchors emission :=
    consuming_emitCalls cstr localtime calls
      (consuming_registered cstr registrations clockType anchors)
  have hstored := hconsuming.stored
  obtain ⟨route, hr, -⟩ := hstored.getElem? hc
  have hcarries := h channel (List.mem_of_getElem? hc)
  have hshown : ∀ sink ∈ route.sink :: emission.runtime.customSinks, ∃ shown,
      Carries clockType anchors call.now channel.1 shown ∧ StoredFrom shown sink := by
    intro sink hsink
    obtain ⟨shown, hmem, hs⟩ := hstored.shown hc hr hsink
    exact ⟨shown.1, hcarries shown hmem, hs⟩
  have hdenotes : ∀ sink ∈ route.sink :: emission.runtime.customSinks,
      Denotes clockType anchors sink.pattern.text header call := by
    intro sink hsink
    obtain ⟨shown, hcarried, hs⟩ := hshown sink hsink
    exact denotes_of_carries hnow hs hcarried
  refine ⟨route, hr, ?_, ?_, hdenotes⟩
  · obtain ⟨conf, target, hconf, hwritten⟩ := written_emitCall cstr localtime hconsuming call hr
    obtain rfl : channel = (conf, target) := by simpa using hc.symm.trans hconf
    rw [hwritten]
    refine congrArg (emission.written ++ ·) (List.map_congr_left fun sink hsink => ?_)
    obtain ⟨shown, -, hs⟩ := hshown sink hsink
    rw [makeRuntimeLogEntry_captureHeader hr,
      shownLine_eq_callSiteLine cstr localtime hs route.name (hdenotes sink hsink)]
  · rw [checkedResolve_isSome_iff]
    refine inRange_of_carries hnow (fun hneeds => ?_) fun hneeds => ?_
    · obtain ⟨sink, hsink, hrequires⟩ :=
        (hstored.requires_iff route _ requiresWallClock_union rfl).mp hneeds
      obtain ⟨shown, hcarried, hs⟩ := hshown sink hsink
      exact ⟨shown, hs.2 ▸ hrequires, hcarried⟩
    · obtain ⟨sink, hsink, hrequires⟩ :=
        (hstored.requires_iff route _ requiresElapsed_union rfl).mp hneeds
      obtain ⟨shown, hcarried, hs⟩ := hshown sink hsink
      exact ⟨shown, hs.2 ▸ hrequires, hcarried⟩

end Unlog.Emit
