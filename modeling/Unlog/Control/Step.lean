import Unlog.Control.State

/-! # The critical sections and accesses of `channel.cpp`

One step is one critical section of the control mutex, or one access outside it. -/

namespace Unlog.Control

open Render

/-- A call of the library. A channel handle may be used by any thread, at any time. -/
inductive Call where
  | operate (config : GlobalConfig) (operation : Operation)
  | setLevel (handle : Handle) (level : LogLevel)
  | log (handle : Handle) (level : LogLevel)
  | logUnchecked (handle : Handle) (level : LogLevel)
  | processExit
  | reset
  deriving DecidableEq, Repr

inductive Action where
  | call (t : ℕ) (call : Call)
  | thread (t : ℕ) (answers : Answers)
  | consumer (runtime : ℕ)
  deriving DecidableEq, Repr

section Step

variable (s : Process) (t : ℕ) (answers : Answers)

/-! ## What every critical section begins with -/

def ensureStateCreatedLocked : Except Error (Process × ℕ) :=
  if s.lifecycle = .shuttingDown ∨ s.lifecycle = .shutDown then
    .error (.invalidArgument (ascii "runtime is shut down; cannot reinitialize"))
  else
    match s.state with
    | some i => .ok (s, i)
    | none => .ok (s.createState answers.anchors, s.runtimeCount)

/-- `ensure_state_created_locked` and `register_process_exit_hook_locked`, then the rest of a
critical section; an exception ends the call. -/
def locked (section' : Process → ℕ → Process) : Process :=
  match ensureStateCreatedLocked s answers with
  | .error error => s.finish t (.threw error)
  | .ok (s, i) => section' s.registerProcessExitHook i

def mismatch (what : Text) : Error :=
  .invalidArgument (what ++ ascii " uses a different compile-time global configuration")

/-- `access_producer_backend`; the factory is the one of the caller's configuration. -/
def accessProducerBackend (config : GlobalConfig) (operation : Operation) : Process :=
  locked s t answers fun s i =>
    match (s.runtimes i).producerBackend with
    | some b =>
      if (s.runtimes i).global ≠ config then
        s.finish t (.threw (.invalidArgument
          (ascii "process already uses a different compile-time global configuration")))
      else s.setPc t (.perform config b operation)
    | none => (s.bindBackend i config).setPc t (.perform config s.backendCount operation)

/-! ## Registration -/

/-- `make_channel_route_locked` once its checks have passed. -/
def emplaceRoute (config : GlobalConfig) (i b : ℕ) (conf : Config) (sink : ℕ)
    (configuredSinks : List ConfiguredSink) : Process :=
  let runtime := { s.runtimes i with configuredSinks := configuredSinks }
  let route := runtime.channels.length
  let handle : Handle := ⟨config, channelPolicyFor conf, b, i, route⟩
  { ((s.setRuntime i (runtime.emplaceChannel conf.name (sinkEntryFor conf (some sink)))).setBackend b
      ((s.backends b).registerChannel conf.runtimeMode conf.useHugePages)).finish t
        (.channel handle) with
    sinkCount := s.sinkCount + 1
    handles := handle :: s.handles
    settings := .registered i route runtime.globalLevel :: s.settings
    registrations := ⟨i, route, conf⟩ :: s.registrations
    acts := ⟨s.state, i, b, config⟩ :: s.acts }

/-- `static_cast<size_t>(invalid_channel_id)`. -/
def invalidChannelId : ℕ := 2 ^ 32 - 1

def makeChannelRouteLocked (config : GlobalConfig) (i b : ℕ) (conf : Config) : Process :=
  let runtime := s.runtimes i
  if (runtime.channelIds.lookup conf.name).isSome then
    s.finish t (.threw (.invalidArgument
      (ascii "A channel with the name " ++ conf.name ++ ascii " already exists")))
  else if invalidChannelId ≤ runtime.channels.length then
    s.finish t (.threw (.lengthError (ascii "channel registry exhausted")))
  else
    match configuredSinkForLocked answers s.sinkCount runtime.configuredSinks
      (channelRegistrationFor conf) with
    | .error error => s.finish t (.threw error)
    | .ok (sink, configuredSinks) => emplaceRoute s t config i b conf sink configuredSinks

def makeChannelRoute (config : GlobalConfig) (b : ℕ) (conf : Config) : Process :=
  locked s t answers fun s i =>
    if s.lifecycle ≠ .configuring then
      s.finish t (.threw (.invalidArgument
        (ascii "runtime has started; cannot register new channels")))
    else if (s.runtimes i).producerBackend ≠ some b then
      s.finish t (.threw (mismatch (ascii "channel")))
    else makeChannelRouteLocked s t answers config i b conf

/-- The last two lines of `add_sink_route`. -/
def pushCustomSink (config : GlobalConfig) (i b : ℕ) (entry : SinkEntry) : Process :=
  { (s.setRuntime i ((s.runtimes i).addCustomSink entry)).finish t .done with
    acts := ⟨s.state, i, b, config⟩ :: s.acts }

def addSinkRoute (config : GlobalConfig) (b : ℕ) (entry : SinkEntry) : Process :=
  locked s t answers fun s i =>
    if s.lifecycle ≠ .configuring then
      s.finish t (.threw (.invalidArgument (ascii "runtime has started; cannot add sinks")))
    else if (s.runtimes i).producerBackend ≠ some b then
      s.finish t (.threw (mismatch (ascii "sink")))
    else if entry.sink = none then
      s.finish t (.threw (.invalidArgument (ascii "add_sink requires a non-null sink")))
    else pushCustomSink s t config i b entry

/-! ## Levels -/

/-- The two branches of the level setters. -/
def setLevelOf (lifecycle : RuntimeLifecycle) (level : LogLevel) (route : RouteState) :
    RouteState :=
  if lifecycle = .running then route.setRunningLevel level else route.configureLevel level

def storeGlobalLevel (config : GlobalConfig) (i b : ℕ) (level : LogLevel) : Process :=
  let runtime := s.runtimes i
  { (s.setRuntime i { runtime with
      globalLevel := level
      channels := runtime.channels.map (setLevelOf s.lifecycle level) }).finish t .done with
    settings := .global i level :: s.settings
    acts := ⟨s.state, i, b, config⟩ :: s.acts }

def setGlobalLevel (config : GlobalConfig) (b : ℕ) (level : LogLevel) : Process :=
  locked s t answers fun s i =>
    if (s.runtimes i).producerBackend ≠ some b then
      s.finish t (.threw (mismatch (ascii "level update")))
    else storeGlobalLevel s t config i b level

def getGlobalLevel (config : GlobalConfig) (b : ℕ) : Process :=
  match s.state with
  | none => s.finish t (.level .info)
  | some i =>
    if (s.runtimes i).producerBackend ≠ some b then
      s.finish t (.threw (mismatch (ascii "level query")))
    else
      { s.finish t (.level (s.runtimes i).globalLevel) with
        acts := ⟨s.state, i, b, config⟩ :: s.acts }

/-- Levels are set through a pointer to the route, in whatever runtime that is. -/
def storeRouteLevel (handle : Handle) (level : LogLevel) : Process :=
  let runtime := s.runtimes handle.runtime
  { s.setRuntime handle.runtime { runtime with
      channels := runtime.channels.modify handle.route (setLevelOf s.lifecycle level) } with
    acts := ⟨s.state, handle.runtime, handle.backend, handle.config⟩ :: s.acts }

/-- `set_route_level`. That the owner asked is recorded in any case. -/
def setRouteLevel (handle : Handle) (level : LogLevel) : Process :=
  let s := { s.finish t .done with
    settings := .route handle.runtime handle.route level :: s.settings }
  match s.state with
  | none => s
  | some i =>
    if (s.runtimes i).producerBackend ≠ some handle.backend then s
    else storeRouteLevel s handle level

/-! ## Start -/

/-- `ensure_consumer_started_locked`, and whether it came to its end. -/
def ensureConsumerStarted (runtime : RuntimeState) : RuntimeState × Bool :=
  if runtime.consumerStarted then (runtime, true)
  else
    let runtime := { runtime with stopRequested := false }
    if !answers.threadCreated then (runtime, false)
    else ({ runtime with consumer := .draining, consumerStarted := true }, true)

/-- The activation loop of `start_backend`. -/
def activateChannels (runtime : RuntimeState) : RuntimeState :=
  { runtime with channels := runtime.channels.map RouteState.activate }

/-- `start_backend` once its checks have passed. -/
def startChecked (config : GlobalConfig) (i b : ℕ) : Process :=
  let prepared := (s.backends b).prepareStart answers
  let s := { s.setBackend b prepared.1 with acts := ⟨s.state, i, b, config⟩ :: s.acts }
  if !prepared.2 then s.finish t (.threw .badAlloc)
  else
    let started := ensureConsumerStarted answers (activateChannels (s.runtimes i))
    let s := s.setRuntime i started.1
    if !started.2 then
      s.finish t (.threw (.systemError (ascii "Resource temporarily unavailable")))
    else { s.finish t .done with lifecycle := .running }

def startBackend (config : GlobalConfig) (b : ℕ) : Process :=
  locked s t answers fun s i =>
    if s.lifecycle = .running then s.finish t .done
    else if s.lifecycle ≠ .configuring then
      s.finish t (.threw (.invalidArgument
        (ascii "runtime cannot be started in its current state")))
    else if (s.runtimes i).channels = [] then
      s.finish t (.threw (.invalidArgument
        (ascii "runtime requires at least one channel before start")))
    else if (s.runtimes i).producerBackend ≠ some b then
      s.finish t (.threw (mismatch (ascii "start")))
    else startChecked s t answers config i b

/-! ## Flush and prewarm -/

/-- The load of the state pointer and the identity check of `flush_backend`. -/
def flushBackend (config : GlobalConfig) (b : ℕ) : Process :=
  match s.state with
  | none => s.finish t .done
  | some i =>
    if (s.runtimes i).producerBackend ≠ some b then s.finish t .done
    else { s.setPc t (.flushAdmit i) with acts := ⟨s.state, i, b, config⟩ :: s.acts }

/-- The identity check of `prewarm_backend`; a producer of the thread changes nothing here. -/
def prewarmBackend (config : GlobalConfig) (b : ℕ) : Process :=
  match s.state with
  | none => s.finish t .done
  | some i =>
    if (s.runtimes i).producerBackend ≠ some b then s.finish t .done
    else { s.finish t .done with acts := ⟨s.state, i, b, config⟩ :: s.acts }

/-- Adds to `active_flushers`. -/
def countFlusher (i : ℕ) : Process :=
  s.setRuntime i { s.runtimes i with activeFlushers := (s.runtimes i).activeFlushers + 1 }

def uncountFlusher (i : ℕ) : Process :=
  s.setRuntime i { s.runtimes i with activeFlushers := (s.runtimes i).activeFlushers - 1 }

/-- `flush_requested.fetch_add` and `wake_consumer`. -/
def requestFlush (i : ℕ) : Process :=
  s.setRuntime i { s.runtimes i with flushRequested := (s.runtimes i).flushRequested + 1 }

def performStep (config : GlobalConfig) (b : ℕ) : Operation → Process
  | .makeChannel conf => makeChannelRoute s t answers config b conf
  | .addSink conf sink => addSinkRoute s t answers config b (sinkEntryFor conf sink)
  | .setGlobalLevel level => setGlobalLevel s t answers config b level
  | .getGlobalLevel => getGlobalLevel s t config b
  | .start => startBackend s t answers config b
  | .flush => flushBackend s t config b
  | .prewarmThread =>
    if s.lifecycle = .running then s.setPc t (.prewarmState config b) else s.finish t .done

/-! ## Shutdown -/

/-- Every channel is silenced. -/
def deactivateRuntime (i : ℕ) : Process :=
  let runtime := s.runtimes i
  s.setRuntime i { runtime with channels := runtime.channels.map RouteState.deactivate }

/-- The first critical section of `destroy_runtime`. -/
def destroyRuntime (final : RuntimeLifecycle) : Process :=
  if s.lifecycle = .shuttingDown then s.finish t .done
  else
    match s.state with
    | none => { s.finish t .done with lifecycle := final }
    | some i =>
      { (deactivateRuntime s i).setPc t (.awaitFlushers i final) with lifecycle := .shuttingDown }

/-- The end of `shutdown_runtime_state`. -/
def resetSinks (i : ℕ) : Process :=
  let runtime := s.runtimes i
  s.setRuntime i { runtime with
    channels := runtime.channels.map RouteState.resetSink
    configuredSinks := []
    customSinks := []
    customSinkRequirements := .none }

/-- The second critical section of `destroy_runtime`. -/
def finishDestroy (final : RuntimeLifecycle) : Process :=
  { s.finish t .done with
    state := if final = .uninitialized then none else s.state
    lifecycle := final }

/-! ## Steps -/

/-- `log_message` for a channel that has no null pointers: a single-threaded channel uses
the producer that `prepare_start` made. -/
def produceStep (handle : Handle) : Process :=
  match handle.policy.runtimeMode with
  | .threadsafe => s.finish t .done
  | .singleThreaded =>
    s.finish t (if (s.backends handle.backend).single handle.policy.hugePages then .done
      else .nullDereference)

def threadStep : Option Process :=
  match s.pc t with
  | .idle => none
  | .access config operation => some (accessProducerBackend s t answers config operation)
  | .perform config b operation => some (performStep s t answers config b operation)
  | .prewarmState config b => some (prewarmBackend s t config b)
  | .flushAdmit i => some ((countFlusher s i).setPc t (.flushLifecycle i))
  | .flushLifecycle i =>
    some (s.setPc t (if s.lifecycle = .running then .flushRequest i else .flushRefuse i))
  | .flushRefuse i => some ((uncountFlusher s i).finish t .done)
  | .flushRequest i =>
    some ((requestFlush s i).setPc t (.flushWait i ((s.runtimes i).flushRequested + 1)))
  | .flushWait i target =>
    if (s.runtimes i).flushCompleted < target then none else some (s.setPc t (.flushLeave i))
  | .flushLeave i => some ((uncountFlusher s i).finish t .done)
  | .setRouteLevel handle level => some (setRouteLevel s t handle level)
  | .gate handle level =>
    match (s.runtimes handle.runtime).channels[handle.route]? with
    | none => none
    | some route =>
      if levelEnabled level route.level then some (s.setPc t (.produce handle true))
      else some (s.finish t .done)
  | .produce handle _ => some (produceStep s t handle)
  | .destroy final => some (destroyRuntime s t final)
  | .awaitFlushers i final =>
    if (s.runtimes i).activeFlushers ≠ 0 then none
    else if (s.runtimes i).consumerStarted then some (s.setPc t (.requestStop i final))
    else some (s.setPc t (.resetSinks i final))
  | .requestStop i final =>
    some ((s.setRuntime i { s.runtimes i with stopRequested := true }).setPc t (.join i final))
  | .join i final =>
    if (s.runtimes i).consumer ≠ .ended then none
    else
      some ((s.setRuntime i { s.runtimes i with
        consumerStarted := false
        stopRequested := false }).setPc t (.resetSinks i final))
  | .resetSinks i final => some ((resetSinks s i).setPc t (.finishDestroy i final))
  | .finishDestroy _ final => some (finishDestroy s t final)

/-- `consumer_main`, up to what the flush and stop protocols see. -/
def consumerStep (i : ℕ) : Option Process :=
  let runtime := s.runtimes i
  match runtime.consumer with
  | .notStarted | .ended => none
  | .draining =>
    some (s.setRuntime i { runtime with
      consumer := if runtime.flushRequested ≠ runtime.flushCompleted
        then .answering runtime.flushRequested else .readStop })
  | .answering requested =>
    some (s.setRuntime i { runtime with flushCompleted := requested, consumer := .draining })
  | .readStop =>
    some (s.setRuntime i { runtime with
      consumer := if runtime.stopRequested then .leftLoop else .draining })
  | .leftLoop => some (s.setRuntime i { runtime with consumer := .ended })

/-- A call can be made with a channel that was returned before, and the exit handler runs only
if it was registered. -/
def Call.entry : Call → Option CallPc
  | .operate config operation => some (.access config operation)
  | .setLevel handle level => if handle ∈ s.handles then some (.setRouteLevel handle level) else none
  | .log handle level => if handle ∈ s.handles then some (.gate handle level) else none
  | .logUnchecked handle _ => if handle ∈ s.handles then some (.produce handle false) else none
  | .processExit => if s.processExitHookRegistered then some (.destroy .shutDown) else none
  | .reset => some (.destroy .uninitialized)

end Step

def step (s : Process) : Action → Option Process
  | .call t call => if s.pc t = .idle then (call.entry s).map (s.setPc t) else none
  | .thread t answers => threadStep s t answers
  | .consumer i => consumerStep s i

/-- The process as a transition system. -/
def process : Library.System Process Action where
  Initial s := s = Process.initial
  step := step

end Unlog.Control
