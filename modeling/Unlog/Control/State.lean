import Unlog.Runtime.Registration
import Unlog.Library.Transition

/-! The process as `channel.cpp` sees it: the runtime control, every runtime and backend ever
made, and where the threads stand between two critical sections. -/

namespace Unlog.Control

open Render

/-! ## Calls -/

/-- `channel<Global, Policy>`: the configuration and the policy are its template arguments; the
two pointers are the number of the backend and the runtime and index of the route. -/
structure Handle where
  config : GlobalConfig
  policy : ChannelPolicy
  backend : ℕ
  runtime : ℕ
  route : ℕ
  deriving DecidableEq, Repr

/-- The operations of `configured<Global>`; all begin with `access_producer_backend`. -/
inductive Operation where
  | makeChannel (conf : Config)
  | addSink (conf : Config) (sink : Option ℕ)
  | setGlobalLevel (level : LogLevel)
  | getGlobalLevel
  | start
  | flush
  | prewarmThread
  deriving DecidableEq, Repr

/-- How a call ended. -/
inductive Result where
  | done
  | channel (handle : Handle)
  | level (value : LogLevel)
  | threw (error : Error)
  | nullDereference
  deriving DecidableEq, Repr

/-- Where a thread stands. `produce` carries whether the level was tested before. -/
inductive CallPc where
  | idle
  | access (config : GlobalConfig) (operation : Operation)
  | perform (config : GlobalConfig) (backend : ℕ) (operation : Operation)
  | prewarmState (config : GlobalConfig) (backend : ℕ)
  -- `flush_backend` after its load of the state pointer
  | flushAdmit (runtime : ℕ)
  | flushLifecycle (runtime : ℕ)
  | flushRefuse (runtime : ℕ)
  | flushRequest (runtime : ℕ)
  | flushWait (runtime target : ℕ)
  | flushLeave (runtime : ℕ)
  -- calls on a channel
  | setRouteLevel (handle : Handle) (level : LogLevel)
  | gate (handle : Handle) (level : LogLevel)
  | produce (handle : Handle) (gated : Bool)
  -- `destroy_runtime`
  | destroy (final : RuntimeLifecycle)
  | awaitFlushers (runtime : ℕ) (final : RuntimeLifecycle)
  | requestStop (runtime : ℕ) (final : RuntimeLifecycle)
  | join (runtime : ℕ) (final : RuntimeLifecycle)
  | resetSinks (runtime : ℕ) (final : RuntimeLifecycle)
  | finishDestroy (runtime : ℕ) (final : RuntimeLifecycle)
  deriving DecidableEq, Repr

/-! ## History -/

/-- A level that a channel's owner asked for: the global one at its registration, a later
`set_global_level` of its runtime, or a `set_level` on the channel. -/
inductive Setting where
  | registered (runtime route : ℕ) (level : LogLevel)
  | global (runtime : ℕ) (level : LogLevel)
  | route (runtime route : ℕ) (level : LogLevel)
  deriving DecidableEq, Repr

/-- A successful `make_channel` and the route it made. -/
structure Registration where
  runtime : ℕ
  route : ℕ
  conf : Config
  deriving DecidableEq, Repr

/-- An operation of `configured<config>` acted on a backend and its runtime; `current` is the state
pointer that its identity check read. -/
structure Act where
  current : Option ℕ
  runtime : ℕ
  backend : ℕ
  config : GlobalConfig
  deriving DecidableEq, Repr

/-! ## The state -/

/-- `runtime_control`, and all that `new` has made: nothing of it is ever deleted. `settings`,
`registrations` and `acts` are history, the latest first. The counters are natural numbers, without
the rollover of `uint32_t` and `uint64_t`. -/
structure Process where
  state : Option ℕ
  lifecycle : RuntimeLifecycle
  processExitHookRegistered : Bool
  runtimes : ℕ → RuntimeState
  runtimeCount : ℕ
  backends : ℕ → ProducerBackend
  backendCount : ℕ
  sinkCount : ℕ
  pc : ℕ → CallPc
  result : ℕ → Option Result
  handles : List Handle
  settings : List Setting
  registrations : List Registration
  acts : List Act

/-- The process before its first use of the library. -/
def Process.initial : Process where
  state := none
  lifecycle := .uninitialized
  processExitHookRegistered := false
  runtimes _ := {}
  runtimeCount := 0
  backends _ := {}
  backendCount := 0
  sinkCount := 0
  pc _ := .idle
  result _ := none
  handles := []
  settings := []
  registrations := []
  acts := []

namespace Process

variable (s : Process)

def setPc (t : ℕ) (pc : CallPc) : Process := { s with pc := Function.update s.pc t pc }

/-- A call returns or throws. -/
def finish (t : ℕ) (result : Result) : Process :=
  { s.setPc t .idle with result := Function.update s.result t (some result) }

def setRuntime (i : ℕ) (runtime : RuntimeState) : Process :=
  { s with runtimes := Function.update s.runtimes i runtime }

def setBackend (b : ℕ) (backend : ProducerBackend) : Process :=
  { s with backends := Function.update s.backends b backend }

/-- `new runtime_state{}` and the two stores after it. -/
def createState (anchors : StartupAnchors) : Process :=
  { s.setRuntime s.runtimeCount { anchors := anchors } with
    runtimeCount := s.runtimeCount + 1
    state := some s.runtimeCount
    lifecycle := .configuring }

def registerProcessExitHook : Process := { s with processExitHookRegistered := true }

/-- The stores of `access_producer_backend` that bind a runtime to a configuration. -/
def bindBackend (i : ℕ) (config : GlobalConfig) : Process :=
  { (s.setRuntime i { s.runtimes i with
      global := config
      clockType := config.clockType
      producerBackend := some s.backendCount }).setBackend s.backendCount
        { config := config, waker := some i } with
    backendCount := s.backendCount + 1 }

variable {s} {t t' i j b b' : ℕ}

@[simp] theorem setPc_pc_self (pc : CallPc) : (s.setPc t pc).pc t = pc := Function.update_self ..

theorem setPc_pc_of_ne (pc : CallPc) (h : t' ≠ t) : (s.setPc t pc).pc t' = s.pc t' :=
  Function.update_of_ne h ..

@[simp] theorem finish_pc_self (result : Result) : (s.finish t result).pc t = .idle :=
  Function.update_self ..

@[simp] theorem setRuntime_runtimes_self (runtime : RuntimeState) :
    (s.setRuntime i runtime).runtimes i = runtime :=
  Function.update_self ..

theorem setRuntime_runtimes_of_ne (runtime : RuntimeState) (h : j ≠ i) :
    (s.setRuntime i runtime).runtimes j = s.runtimes j :=
  Function.update_of_ne h ..

@[simp] theorem createState_runtimes_self (anchors : StartupAnchors) :
    (s.createState anchors).runtimes s.runtimeCount = { anchors := anchors } :=
  Function.update_self ..

theorem createState_runtimes_of_ne (anchors : StartupAnchors) (h : j ≠ s.runtimeCount) :
    (s.createState anchors).runtimes j = s.runtimes j :=
  Function.update_of_ne h ..

@[simp] theorem setBackend_backends_self (backend : ProducerBackend) :
    (s.setBackend b backend).backends b = backend :=
  Function.update_self ..

theorem setBackend_backends_of_ne (backend : ProducerBackend) (h : b' ≠ b) :
    (s.setBackend b backend).backends b' = s.backends b' :=
  Function.update_of_ne h ..

end Process

end Unlog.Control
