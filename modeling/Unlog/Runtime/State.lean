import Unlog.Config

/-! The data of one runtime: routes, sinks, and the counters of its flush protocol. -/

namespace Unlog

open Pattern Render

/-- `route_state`; `level` is the atomic `level_` that every log call gates on. -/
structure RouteState where
  id : ℕ
  name : Text
  sink : SinkEntry
  configuredLevel : LogLevel := .info
  level : LogLevel := .off
  deriving DecidableEq, Repr

namespace RouteState

def configureLevel (route : RouteState) (value : LogLevel) : RouteState :=
  { route with configuredLevel := value }

def setRunningLevel (route : RouteState) (value : LogLevel) : RouteState :=
  { route with configuredLevel := value, level := value }

def activate (route : RouteState) : RouteState := { route with level := route.configuredLevel }

def deactivate (route : RouteState) : RouteState := { route with level := .off }

/-- `route.sink.sink.reset()` and the release of the render buffer. -/
def resetSink (route : RouteState) : RouteState :=
  { route with sink := { route.sink with sink := none, renderBuffer := [] } }

end RouteState

structure ConfiguredSink where
  sink : ℕ
  targetKey : Text
  deriving DecidableEq, Repr

inductive RuntimeLifecycle where
  | uninitialized | configuring | running | shuttingDown | shutDown
  deriving DecidableEq, Repr

/-- Where the consumer thread of a runtime stands in `consumer_main`; `answering` carries the
requests it flushes for. -/
inductive ConsumerPhase where
  | notStarted
  | draining
  | answering (requested : ℕ)
  | readStop
  | leftLoop
  | ended
  deriving DecidableEq, Repr

/-- The consumer thread runs and has not left its loop. -/
def ConsumerPhase.inLoop : ConsumerPhase → Bool
  | .draining | .answering _ | .readStop => true
  | .notStarted | .leftLoop | .ended => false

structure RuntimeState where
  channelIds : List (Text × ℕ) := []
  channels : List RouteState := []
  global : GlobalConfig := {}
  clockType : ClockType := .steady
  globalLevel : LogLevel := .info
  producerBackend : Option ℕ := none
  anchors : StartupAnchors := ⟨0, 0⟩
  configuredSinks : List ConfiguredSink := []
  customSinks : List SinkEntry := []
  customSinkRequirements : TimeRequirements := .none
  consumer : ConsumerPhase := .notStarted
  consumerStarted : Bool := false
  stopRequested : Bool := false
  flushRequested : ℕ := 0
  flushCompleted : ℕ := 0
  activeFlushers : ℕ := 0
  deriving DecidableEq, Repr

/-- The stores of `make_channel_route_locked` once its checks have passed. -/
def RuntimeState.emplaceChannel (runtime : RuntimeState) (name : Text) (entry : SinkEntry) :
    RuntimeState :=
  let id := runtime.channels.length
  let route : RouteState := { id := id, name := name, sink := entry }
  { runtime with
    channels := runtime.channels ++ [route.configureLevel runtime.globalLevel]
    channelIds := runtime.channelIds ++ [(name, id)] }

/-- The two stores at the end of `add_sink_route`. -/
def RuntimeState.addCustomSink (runtime : RuntimeState) (entry : SinkEntry) : RuntimeState :=
  { runtime with
    customSinkRequirements := runtime.customSinkRequirements.union entry.requirements
    customSinks := runtime.customSinks ++ [entry] }

end Unlog
