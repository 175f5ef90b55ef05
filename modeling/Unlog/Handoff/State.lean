import Unlog.Types
import Unlog.Runtime.State

/-! The shared memory of a started runtime: producers, registries, the wake and flush
counters, and where every thread stands between two atomic accesses. -/

namespace Unlog.Handoff

/-- The template argument `HugePages`. -/
inductive Pages where
  | normal | huge
  deriving DecidableEq, Repr

/-- `single_normal_` and `single_huge_`, or an entry of a registry's `storage`. -/
inductive ProducerId where
  | single (pages : Pages)
  | pooled (pages : Pages) (index : ℕ)
  deriving DecidableEq, Repr

def ProducerId.pages : ProducerId → Pages
  | .single pages => pages
  | .pooled pages _ => pages

/-- The `number`-th record ever published on a producer's queue. -/
structure RecordId where
  producer : ProducerId
  number : ℕ
  deriving DecidableEq, Repr

/-- What the hand-off needs of a `record_slot`. -/
structure Record where
  route : ℕ
  truncated : Bool
  deriving DecidableEq, Repr

/-- The bounded FIFO assumed of `utl::spsc_queue`: all that was ever published, and how much
of it the consumer has taken. -/
structure Queue where
  published : List Record := []
  head : ℕ := 0
  deriving DecidableEq, Repr

def Queue.tail (queue : Queue) : ℕ := queue.published.length

def Queue.empty (queue : Queue) : Bool := queue.head == queue.tail

inductive Lifecycle where
  | active | retired | free
  deriving DecidableEq, Repr

/-- `configured_queue_producer`; `activeWord` points to a word of a registry. -/
structure Producer where
  activeWord : Option (Pages × ℕ) := none
  producerIndex : ℕ := 0
  nextFreeIndex : ℕ
  activeBitMask : BitVec 64 := 0
  queue : Queue := {}
  enqueued : Bool := false
  lifecycle : Lifecycle := .active
  emitted : ℕ := 0
  dropped : ℕ := 0
  truncated : ℕ := 0
  owner : Option ℕ := none
  deriving DecidableEq, Repr

/-- `registry<HugePages>`; `size` is `storage.size()`, a slot points into `storage`. -/
structure Registry where
  size : ℕ := 0
  slots : ℕ → Option ℕ := fun _ => none
  activeWords : ℕ → BitVec 64 := fun _ => 0
  freeHead : ℕ
  count : ℕ := 0

/-! ## The sealed configuration -/

structure Channel where
  runtimeMode : RuntimeMode
  pages : Pages
  sink : ℕ
  deriving DecidableEq, Repr

/-- An entry of `configured_sinks` or of `custom_sinks`. -/
inductive SinkRef where
  | configured (index : ℕ)
  | custom (index : ℕ)
  deriving DecidableEq, Repr

/-- What a successful start fixes: every route's sink is a configured one. -/
structure Sealed where
  channels : List Channel
  configuredSinks : ℕ
  customSinks : ℕ
  sink_lt : ∀ channel ∈ channels, channel.sink < configuredSinks
  maxProducers : ℕ
  capacity : Pages → ℕ
  diagnostic : Bool

/-- `single_normal_` or `single_huge_` was made by `prepare_start`. -/
def Sealed.hasSingle (conf : Sealed) (pages : Pages) : Bool :=
  conf.channels.any fun channel =>
    channel.runtimeMode == .singleThreaded && channel.pages == pages

/-- `threadsafe_normal_channels_` and `threadsafe_huge_channels_`. -/
def Sealed.threadsafeChannels (conf : Sealed) (pages : Pages) : ℕ :=
  conf.channels.countP fun channel =>
    channel.runtimeMode == .threadsafe && channel.pages == pages

/-- The sinks `emit_runtime_slot_for` writes a record of a route to, in order. -/
def Sealed.targets (conf : Sealed) (route : ℕ) : List SinkRef :=
  match conf.channels[route]? with
  | none => []
  | some channel => .configured channel.sink :: (List.range conf.customSinks).map .custom

/-- The sinks `flush_runtime_sinks` flushes, in order. -/
def Sealed.sinks (conf : Sealed) : List SinkRef :=
  (List.range conf.configuredSinks).map .configured ++ (List.range conf.customSinks).map .custom

/-! ## Threads -/

/-- Who calls `wake_consumer`. -/
inductive Waker where
  | note (record : RecordId)
  | retire
  | flush (target : ℕ) (before : List RecordId)
  | stop (final : RuntimeLifecycle)
  deriving DecidableEq, Repr

/-- What `threadsafe_producer` was called for. -/
inductive Purpose where
  | log (channel : ℕ)
  | prewarm
  deriving DecidableEq, Repr

/-- The next atomic access of a thread. A flush carries the records whose log call had
returned when it was called. -/
inductive ThreadPc where
  | idle
  -- `log_handle`, `log_message` and `note_work`
  | gate (channel : ℕ) (level : LogLevel)
  | obtain (channel : ℕ)
  | assertOwner (channel : ℕ) (pages : Pages)
  | claimOwner (channel : ℕ) (pages : Pages)
  | acquire (pages : Pages) (purpose : Purpose)
  | produce (channel : ℕ) (producer : ProducerId)
  | countDropped (producer : ProducerId)
  | countEmitted (record : RecordId) (truncated : Bool)
  | countTruncated (record : RecordId)
  | markEnqueued (record : RecordId)
  | publishBit (record : RecordId)
  | wake (waker : Waker)
  -- `retire_threadsafe_producer` from `tls_state::release`
  | retire (pages : Pages) (index : ℕ)
  | publishRetired (pages : Pages) (index : ℕ)
  -- `prewarm_backend`
  | prewarmLifecycle
  | prewarmState
  | prewarmThread (pages : Pages)
  -- `flush_backend`
  | flushState (before : List RecordId)
  | flushAdmit (before : List RecordId)
  | flushLifecycle (before : List RecordId)
  | flushRefuse
  | flushRequest (before : List RecordId)
  | flushWait (target : ℕ) (before : List RecordId)
  | flushLeave (target : ℕ) (before : List RecordId)
  -- `set_route_level` and `set_global_level`
  | setRouteLevel (channel : ℕ) (level : LogLevel)
  | setGlobalLevel (level : LogLevel)
  -- `destroy_runtime`
  | destroy (final : RuntimeLifecycle)
  | awaitFlushers (final : RuntimeLifecycle)
  | requestStop (final : RuntimeLifecycle)
  | join (final : RuntimeLifecycle)
  | joined (final : RuntimeLifecycle)
  | resetSinks (final : RuntimeLifecycle)
  | finishDestroy (final : RuntimeLifecycle)
  deriving DecidableEq, Repr

/-! ## The consumer -/

/-- Which drain a pass belongs to, with what `consumer_main` remembers across it. -/
inductive Round where
  | ready (seq : ℕ) (allDrained : Bool)
  | flush (requested : ℕ)
  | final (allDrained : Bool)
  deriving DecidableEq, Repr

/-- `all_drained &= false`; `drain_flush` ignores the result. -/
def Round.notDrained : Round → Round
  | .ready seq _ => .ready seq false
  | .flush requested => .flush requested
  | .final _ => .final false

/-- Where a pass over the producers stands. -/
inductive Cursor where
  | single (pages : Pages)
  | count (pages : Pages)
  | word (pages : Pages) (words index : ℕ)
  | bits (pages : Pages) (words index : ℕ) (pending : BitVec 64)
  | slot (pages : Pages) (count index : ℕ)
  | done
  deriving DecidableEq, Repr

/-- The next access of `drain_registry_producer`. -/
inductive Stage where
  | readTail
  | consume (tail : ℕ)
  | firstEmpty
  | publishReady
  | clearEnqueued
  | secondEmpty
  | remark
  | publishRemark
  | isRetired
  | markFree
  | pushFree
  deriving DecidableEq, Repr

/-- The next access of `consumer_main`. -/
inductive ConsumerPc where
  | sampleTicket
  | pass (round : Round) (cursor : Cursor)
  | visit (round : Round) (resume : Cursor) (producer : ProducerId) (stage : Stage)
  | readRequested (seq : ℕ) (allDrained : Bool)
  | flushSinks (requested : ℕ)
  | completeFlush (requested : ℕ)
  | readStop (seq : ℕ) (allDrained : Bool)
  | wait (seq : ℕ)
  | finalFlush
  | ended
  deriving DecidableEq, Repr

/-- What the sinks see. `live` tells whether the entry still holds its sink. -/
inductive Event where
  | write (sink : SinkRef) (record : RecordId) (live : Bool)
  | flush (sink : SinkRef)
  deriving DecidableEq, Repr

/-! ## The state -/

/-- `present` tells whether `control.state` still points here. `returned` and `accepted` are
history: the published records whose log call has returned, and those among them when the
shutdown began. The counters are natural numbers: their rollover at `2 ^ 32` and `2 ^ 64` is left
out. -/
structure State where
  producer : ProducerId → Producer
  registry : Pages → Registry
  tls : ℕ → Pages → Option ℕ
  pc : ℕ → ThreadPc
  consumer : ConsumerPc
  wakeSeq : ℕ
  flushRequested : ℕ
  flushCompleted : ℕ
  activeFlushers : ℕ
  stopRequested : Bool
  consumerStarted : Bool
  lifecycle : RuntimeLifecycle
  present : Bool
  level : ℕ → LogLevel
  sinksReset : Bool
  out : List Event
  returned : List RecordId
  accepted : List RecordId

/-- The runtime as `start_backend` leaves it, with the levels its routes were given. -/
def State.started (conf : Sealed) (level : ℕ → LogLevel) : State where
  producer _ := { nextFreeIndex := conf.maxProducers }
  registry _ := { freeHead := conf.maxProducers }
  tls _ _ := none
  pc _ := .idle
  consumer := .sampleTicket
  wakeSeq := 0
  flushRequested := 0
  flushCompleted := 0
  activeFlushers := 0
  stopRequested := false
  consumerStarted := true
  lifecycle := .running
  present := true
  level := level
  sinksReset := false
  out := []
  returned := []
  accepted := []

namespace State

variable (s : State)

def setPc (t : ℕ) (pc : ThreadPc) : State := { s with pc := Function.update s.pc t pc }

def setProducer (p : ProducerId) (value : Producer) : State :=
  { s with producer := Function.update s.producer p value }

def setRegistry (pages : Pages) (value : Registry) : State :=
  { s with registry := Function.update s.registry pages value }

def setTls (t : ℕ) (pages : Pages) (index : Option ℕ) : State :=
  { s with tls := Function.update s.tls t (Function.update (s.tls t) pages index) }

/-- `publish_ready_bit`; a single-threaded producer has no active word. -/
def publishReadyBit (p : ProducerId) : State :=
  match (s.producer p).activeWord with
  | none => s
  | some (pages, word) =>
    let registry := s.registry pages
    s.setRegistry pages { registry with
      activeWords := Function.update registry.activeWords word
        (registry.activeWords word ||| (s.producer p).activeBitMask) }

/-- A log call that published `record` returns. -/
def finishLog (t : ℕ) (record : RecordId) : State :=
  { s.setPc t .idle with returned := record :: s.returned }

variable {s} {t t' : ℕ} {p q : ProducerId} {pages pages' : Pages}

@[simp] theorem setPc_pc_self (pc : ThreadPc) : (s.setPc t pc).pc t = pc :=
  Function.update_self ..

theorem setPc_pc_of_ne (pc : ThreadPc) (h : t' ≠ t) : (s.setPc t pc).pc t' = s.pc t' :=
  Function.update_of_ne h ..

@[simp] theorem setProducer_producer_self (value : Producer) :
    (s.setProducer p value).producer p = value :=
  Function.update_self ..

theorem setProducer_producer_of_ne (value : Producer) (h : q ≠ p) :
    (s.setProducer p value).producer q = s.producer q :=
  Function.update_of_ne h ..

/-- A part of every producer that the new value keeps. -/
theorem setProducer_part {α : Type*} (part : Producer → α) {value : Producer}
    (h : p = q → part value = part (s.producer q)) :
    part ((s.setProducer p value).producer q) = part (s.producer q) := by
  by_cases hq : q = p
  · subst hq
    rw [setProducer_producer_self]
    exact h rfl
  · rw [setProducer_producer_of_ne _ hq]

@[simp] theorem setRegistry_registry_self (value : Registry) :
    (s.setRegistry pages value).registry pages = value :=
  Function.update_self ..

theorem setRegistry_registry_of_ne (value : Registry) (h : pages' ≠ pages) :
    (s.setRegistry pages value).registry pages' = s.registry pages' :=
  Function.update_of_ne h ..

@[simp] theorem setTls_tls_self (index : Option ℕ) :
    (s.setTls t pages index).tls t pages = index := by
  simp [setTls]

theorem setTls_tls_of_ne (index : Option ℕ) (h : t' ≠ t ∨ pages' ≠ pages) :
    (s.setTls t pages index).tls t' pages' = s.tls t' pages' := by
  by_cases ht : t' = t
  · subst ht
    have hp : pages' ≠ pages := h.resolve_left (not_not_intro rfl)
    simp [setTls, Function.update_of_ne hp]
  · simp [setTls, Function.update_of_ne ht]

/-! What the other fields keep. -/

@[simp] theorem setPc_producer (pc : ThreadPc) : (s.setPc t pc).producer = s.producer := rfl

@[simp] theorem setPc_registry (pc : ThreadPc) : (s.setPc t pc).registry = s.registry := rfl

@[simp] theorem setPc_consumer (pc : ThreadPc) : (s.setPc t pc).consumer = s.consumer := rfl

@[simp] theorem setTls_producer (index : Option ℕ) :
    (s.setTls t pages index).producer = s.producer := rfl

@[simp] theorem setTls_registry (index : Option ℕ) :
    (s.setTls t pages index).registry = s.registry := rfl

@[simp] theorem setTls_pc (index : Option ℕ) : (s.setTls t pages index).pc = s.pc := rfl

@[simp] theorem setTls_consumer (index : Option ℕ) :
    (s.setTls t pages index).consumer = s.consumer := rfl

@[simp] theorem setRegistry_producer (value : Registry) :
    (s.setRegistry pages value).producer = s.producer := rfl

@[simp] theorem setRegistry_pc (value : Registry) : (s.setRegistry pages value).pc = s.pc := rfl

@[simp] theorem setRegistry_consumer (value : Registry) :
    (s.setRegistry pages value).consumer = s.consumer := rfl

@[simp] theorem setProducer_registry (value : Producer) :
    (s.setProducer p value).registry = s.registry := rfl

@[simp] theorem setProducer_pc (value : Producer) : (s.setProducer p value).pc = s.pc := rfl

@[simp] theorem setProducer_consumer (value : Producer) :
    (s.setProducer p value).consumer = s.consumer := rfl

@[simp] theorem finishLog_producer (record : RecordId) :
    (s.finishLog t record).producer = s.producer := rfl

@[simp] theorem finishLog_registry (record : RecordId) :
    (s.finishLog t record).registry = s.registry := rfl

@[simp] theorem finishLog_pc (record : RecordId) :
    (s.finishLog t record).pc = (s.setPc t .idle).pc := rfl

/-! What a signal leaves alone. -/

/-- Only a registry. -/
theorem publishReadyBit_eq (s : State) (p : ProducerId) :
    ∃ registry, s.publishReadyBit p = { s with registry := registry } := by
  unfold publishReadyBit
  split
  · exact ⟨s.registry, rfl⟩
  · exact ⟨_, rfl⟩

@[simp] theorem publishReadyBit_producer : (s.publishReadyBit p).producer = s.producer := by
  unfold publishReadyBit
  split <;> rfl

@[simp] theorem publishReadyBit_tls : (s.publishReadyBit p).tls = s.tls := by
  unfold publishReadyBit
  split <;> rfl

@[simp] theorem publishReadyBit_pc : (s.publishReadyBit p).pc = s.pc := by
  unfold publishReadyBit
  split <;> rfl

@[simp] theorem publishReadyBit_consumer : (s.publishReadyBit p).consumer = s.consumer := by
  unfold publishReadyBit
  split <;> rfl

end State

end Unlog.Handoff
