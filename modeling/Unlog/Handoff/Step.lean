import Unlog.Handoff.State
import Unlog.Library.Transition

/-! # The atomic steps

One step is one atomic access, or one critical section of `registry.mutex` or of the control
mutex; `Mutexes` takes the sections apart again. Steps on a thread's own variables are merged into
the access before them. `tls` says who owns a producer: the thread gives it up with the exchange of
`retire()`, although `release()` clears the pointer only after the wake-up; no access of the thread
in between reads it. -/

namespace Unlog.Handoff

/-- The public operations, `tls_state::release`, which runs when a thread exits, and the two
callers of `destroy_runtime`. -/
inductive Call where
  | log (channel : ℕ) (level : LogLevel)
  | logUnchecked (channel : ℕ)
  | release (pages : Pages)
  | prewarm
  | flush
  | setRouteLevel (channel : ℕ) (level : LogLevel)
  | setGlobalLevel (level : LogLevel)
  | processExit
  | reset
  deriving DecidableEq, Repr

/-- What the callback of `produce` reports if it runs. -/
inductive Outcome where
  | written | truncated | dropped | error
  deriving DecidableEq, Repr

inductive Action where
  | call (t : ℕ) (call : Call)
  | produce (t : ℕ) (outcome : Outcome)
  | thread (t : ℕ)
  | consumer
  deriving DecidableEq, Repr

section Step

variable (conf : Sealed) (s : State)

/-! ## Threads -/

/-- The first access of a call. -/
def Call.entry (t : ℕ) : Call → ThreadPc
  | .log channel level => .gate channel level
  | .logUnchecked channel => .obtain channel
  | .release pages =>
    match s.tls t pages with
    | none => .idle
    | some index => .retire pages index
  | .prewarm => .prewarmLifecycle
  | .flush => .flushState s.returned
  | .setRouteLevel channel level => .setRouteLevel channel level
  | .setGlobalLevel level => .setGlobalLevel level
  | .processExit => .destroy .shutDown
  | .reset => .destroy .uninitialized

/-- What `threadsafe_producer` returns to. -/
def Purpose.next (pages : Pages) (index : ℕ) : Purpose → ThreadPc
  | .log channel => .produce channel (.pooled pages index)
  | .prewarm =>
    match pages with
    | .normal => .prewarmThread .huge
    | .huge => .idle

/-- `reactivate`. -/
def Producer.reactivate (producer : Producer) : Producer :=
  { producer with
    nextFreeIndex := conf.maxProducers
    enqueued := false
    lifecycle := .active }

/-- `bind_active_word` on the word of the producer's index. -/
def Producer.bindActiveWord (producer : Producer) (pages : Pages) (index : ℕ) : Producer :=
  { producer with
    activeWord := some (pages, index / 64)
    producerIndex := index
    activeBitMask := (1 : BitVec 64) <<< (index % 64) }

/-- The critical section of `threadsafe_producer`. -/
def acquireStep (t : ℕ) (pages : Pages) (purpose : Purpose) : Option State :=
  let registry := s.registry pages
  if registry.freeHead ≠ conf.maxProducers then
    match registry.slots registry.freeHead with
    | none => none
    | some index =>
      let producer := s.producer (.pooled pages index)
      some ((((s.setRegistry pages { registry with freeHead := producer.nextFreeIndex }).setProducer
        (.pooled pages index) (producer.reactivate conf)).setTls t pages (some index)).setPc t
          (purpose.next pages index))
  else if conf.maxProducers ≤ registry.size then some (s.setPc t .idle)
  else
    let index := registry.size
    let producer := s.producer (.pooled pages index)
    some ((((s.setRegistry pages { registry with
        size := registry.size + 1
        slots := Function.update registry.slots index (some index)
        count := index + 1 }).setProducer
      (.pooled pages index) (producer.bindActiveWord pages index)).setTls t pages
        (some index)).setPc t (purpose.next pages index))

/-- The next access after a publication; the counters exist in diagnostic builds. -/
def afterPublish (record : RecordId) (truncated : Bool) : ThreadPc :=
  if conf.diagnostic then .countEmitted record truncated else .markEnqueued record

/-- What `log_message` does when nothing was published and nothing thrown. -/
def afterDrop (p : ProducerId) : ThreadPc := if conf.diagnostic then .countDropped p else .idle

/-- `queue().produce`: a full queue does not run the callback. -/
def produceStep (t channel : ℕ) (p : ProducerId) (outcome : Outcome) : State :=
  let producer := s.producer p
  let queue := producer.queue
  if conf.capacity p.pages ≤ queue.tail - queue.head then s.setPc t (afterDrop conf p)
  else
    match outcome with
    | .dropped => s.setPc t (afterDrop conf p)
    | .error => s.setPc t .idle
    | .written | .truncated =>
      let record : Record := ⟨channel, outcome == .truncated⟩
      (s.setProducer p { producer with
        queue := { queue with published := queue.published ++ [record] } }).setPc t
          (afterPublish conf ⟨p, queue.tail⟩ record.truncated)

/-- `note_work` after a won exchange: only a threadsafe producer has a ready bit. -/
def afterMark (record : RecordId) : ThreadPc :=
  match record.producer with
  | .single _ => .wake (.note record)
  | .pooled _ _ => .publishBit record

/-- What follows `wake_consumer`. -/
def wakeStep (t : ℕ) : Waker → State
  | .note record => { s with wakeSeq := s.wakeSeq + 1 }.finishLog t record
  | .retire => { s with wakeSeq := s.wakeSeq + 1 }.setPc t .idle
  | .flush target before => { s with wakeSeq := s.wakeSeq + 1 }.setPc t (.flushWait target before)
  | .stop final => { s with wakeSeq := s.wakeSeq + 1 }.setPc t (.join final)

def threadStep (t : ℕ) : Option State :=
  match s.pc t with
  | .idle => none
  | .gate channel level =>
    some (s.setPc t (if levelEnabled level (s.level channel) then .obtain channel else .idle))
  | .obtain channel =>
    match conf.channels[channel]? with
    | none => none
    | some ⟨.threadsafe, pages, _⟩ =>
      match s.tls t pages with
      | some index => some (s.setPc t (.produce channel (.pooled pages index)))
      | none => some (s.setPc t (.acquire pages (.log channel)))
    | some ⟨.singleThreaded, pages, _⟩ =>
      if conf.diagnostic then some (s.setPc t (.assertOwner channel pages))
      else some (s.setPc t (.produce channel (.single pages)))
  | .assertOwner channel pages =>
    match (s.producer (.single pages)).owner with
    | none => some (s.setPc t (.claimOwner channel pages))
    | some owner => some (s.setPc t (if owner = t then .produce channel (.single pages) else .idle))
  | .claimOwner channel pages =>
    let producer := s.producer (.single pages)
    match producer.owner with
    | none =>
      some ((s.setProducer (.single pages) { producer with owner := some t }).setPc t
        (.produce channel (.single pages)))
    | some _ => some (s.setPc t .idle)
  | .acquire pages purpose => acquireStep conf s t pages purpose
  | .produce _ _ => none
  | .countDropped p =>
    let producer := s.producer p
    some ((s.setProducer p { producer with dropped := producer.dropped + 1 }).setPc t .idle)
  | .countEmitted record truncated =>
    let producer := s.producer record.producer
    some ((s.setProducer record.producer { producer with emitted := producer.emitted + 1 }).setPc t
      (if truncated then .countTruncated record else .markEnqueued record))
  | .countTruncated record =>
    let producer := s.producer record.producer
    some ((s.setProducer record.producer { producer with
      truncated := producer.truncated + 1 }).setPc t (.markEnqueued record))
  | .markEnqueued record =>
    let producer := s.producer record.producer
    if producer.enqueued then some (s.finishLog t record)
    else
      some ((s.setProducer record.producer { producer with enqueued := true }).setPc t
        (afterMark record))
  | .publishBit record =>
    some ((s.publishReadyBit record.producer).setPc t (.wake (.note record)))
  | .wake waker => some (wakeStep s t waker)
  | .retire pages index =>
    let producer := s.producer (.pooled pages index)
    if producer.lifecycle = .active then
      some (((s.setProducer (.pooled pages index) { producer with lifecycle := .retired }).setTls t
        pages none).setPc t (.publishRetired pages index))
    else some ((s.setTls t pages none).setPc t .idle)
  | .publishRetired pages index =>
    some ((s.publishReadyBit (.pooled pages index)).setPc t (.wake .retire))
  | .prewarmLifecycle =>
    some (s.setPc t (if s.lifecycle = .running then .prewarmState else .idle))
  | .prewarmState => some (s.setPc t (if s.present then .prewarmThread .normal else .idle))
  | .prewarmThread pages =>
    match s.tls t pages with
    | some index => some (s.setPc t (Purpose.prewarm.next pages index))
    | none =>
      some (s.setPc t (if conf.threadsafeChannels pages = 0 then Purpose.prewarm.next pages 0
        else .acquire pages .prewarm))
  | .flushState before => some (s.setPc t (if s.present then .flushAdmit before else .idle))
  | .flushAdmit before =>
    some ({ s with activeFlushers := s.activeFlushers + 1 }.setPc t (.flushLifecycle before))
  | .flushLifecycle before =>
    some (s.setPc t (if s.lifecycle = .running then .flushRequest before else .flushRefuse))
  | .flushRefuse => some ({ s with activeFlushers := s.activeFlushers - 1 }.setPc t .idle)
  | .flushRequest before =>
    some ({ s with flushRequested := s.flushRequested + 1 }.setPc t
      (.wake (.flush (s.flushRequested + 1) before)))
  | .flushWait target before =>
    -- `flush_completed.wait` and the next load
    if s.flushCompleted < target then none else some (s.setPc t (.flushLeave target before))
  | .flushLeave _ _ => some ({ s with activeFlushers := s.activeFlushers - 1 }.setPc t .idle)
  | .setRouteLevel channel level =>
    if s.present ∧ s.lifecycle = .running then
      some ({ s with level := Function.update s.level channel level }.setPc t .idle)
    else some (s.setPc t .idle)
  | .setGlobalLevel level =>
    if s.present ∧ s.lifecycle = .running then
      some ({ s with level := fun _ => level }.setPc t .idle)
    else some (s.setPc t .idle)
  | .destroy final =>
    if s.lifecycle = .shuttingDown then some (s.setPc t .idle)
    -- a second shutdown, of a runtime already shut down, is not modelled
    else if s.lifecycle ≠ .running then none
    else
      some ({ s with
        lifecycle := .shuttingDown
        level := fun _ => .off
        accepted := s.returned }.setPc t (.awaitFlushers final))
  | .awaitFlushers final =>
    if s.activeFlushers = 0 then some (s.setPc t (.requestStop final)) else none
  | .requestStop final => some ({ s with stopRequested := true }.setPc t (.wake (.stop final)))
  | .join final => if s.consumer = .ended then some (s.setPc t (.joined final)) else none
  | .joined final =>
    some ({ s with consumerStarted := false, stopRequested := false }.setPc t (.resetSinks final))
  | .resetSinks final => some ({ s with sinksReset := true }.setPc t (.finishDestroy final))
  | .finishDestroy final =>
    some ({ s with
      lifecycle := final
      present := if final = RuntimeLifecycle.uninitialized then false else s.present }.setPc t .idle)

/-! ## The consumer -/

/-- Where a pass goes on after a registry, or ends. -/
def Cursor.afterRegistry : Pages → Cursor
  | .normal => .count .huge
  | .huge => .done

def Cursor.afterSingle : Pages → Cursor
  | .normal => .single .huge
  | .huge => .count .normal

/-- The start of `drain_ready` and of `drain_flush`. -/
def Cursor.first : Cursor := .single .normal

/-- What follows a whole pass. -/
def Round.finish : Round → ConsumerPc
  | .ready seq allDrained => .readRequested seq allDrained
  | .flush requested => .flushSinks requested
  | .final true => .finalFlush
  | .final false => .pass (.final true) Cursor.first

def passStep (round : Round) : Cursor → Option State
  | .single pages =>
    if conf.hasSingle pages then
      some { s with consumer := .visit round (Cursor.afterSingle pages) (.single pages) .readTail }
    else some { s with consumer := .pass round (Cursor.afterSingle pages) }
  | .count pages =>
    let count := (s.registry pages).count
    match round with
    | .flush _ => some { s with consumer := .pass round (.slot pages count 0) }
    | _ => some { s with consumer := .pass round (.word pages ((count + 63) / 64) 0) }
  | .word pages words index =>
    if index < words then
      let registry := s.registry pages
      some { s.setRegistry pages { registry with
          activeWords := Function.update registry.activeWords index 0 } with
        consumer := .pass round (.bits pages words index (registry.activeWords index)) }
    else some { s with consumer := .pass round (Cursor.afterRegistry pages) }
  | .bits pages words index pending =>
    if pending = 0 then some { s with consumer := .pass round (.word pages words (index + 1)) }
    else
      match (s.registry pages).slots (index * 64 + pending.ctz.toNat) with
      | none => none
      | some slot =>
        some { s with
          consumer := .visit round (.bits pages words index (pending &&& (pending - 1)))
            (.pooled pages slot) .readTail }
  | .slot pages count index =>
    if index < count then
      match (s.registry pages).slots index with
      | none => none
      | some slot =>
        some { s with
          consumer := .visit round (.slot pages count (index + 1)) (.pooled pages slot) .readTail }
    else some { s with consumer := .pass round (Cursor.afterRegistry pages) }
  | .done => some { s with consumer := round.finish }

/-- The writes of `emit_runtime_slot_for`. -/
def emission (record : RecordId) (route : ℕ) : List Event :=
  (conf.targets route).map fun sink => .write sink record (!s.sinksReset)

/-- What follows an empty second look. -/
def afterDrained (round : Round) (resume : Cursor) : ProducerId → ConsumerPc
  | .single _ => .pass round resume
  | .pooled pages index => .visit round resume (.pooled pages index) .isRetired

def visitStep (round : Round) (resume : Cursor) (p : ProducerId) (stage : Stage) :
    Option State :=
  let producer := s.producer p
  let queue := producer.queue
  match stage with
  | .readTail => some { s with consumer := .visit round resume p (.consume queue.tail) }
  | .consume tail =>
    if queue.head < tail then
      match queue.published[queue.head]? with
      | none => none
      | some record =>
        some { s.setProducer p { producer with queue := { queue with head := queue.head + 1 } } with
          out := s.out ++ emission conf s ⟨p, queue.head⟩ record.route }
    else some { s with consumer := .visit round resume p .firstEmpty }
  | .firstEmpty =>
    some { s with
      consumer := .visit round resume p
        (if queue.empty then .clearEnqueued else .publishReady) }
  | .publishReady =>
    some { s.publishReadyBit p with consumer := .pass round.notDrained resume }
  | .clearEnqueued =>
    some { s.setProducer p { producer with enqueued := false } with
      consumer := .visit round resume p .secondEmpty }
  | .secondEmpty =>
    some { s with
      consumer := if queue.empty then afterDrained round resume p
        else .visit round resume p .remark }
  | .remark =>
    if producer.enqueued then some { s with consumer := .pass round.notDrained resume }
    else
      some { s.setProducer p { producer with enqueued := true } with
        consumer := .visit round resume p .publishRemark }
  | .publishRemark =>
    some { s.publishReadyBit p with consumer := .pass round.notDrained resume }
  | .isRetired =>
    some { s with
      consumer := if producer.lifecycle = .retired then .visit round resume p .markFree
        else .pass round resume }
  | .markFree =>
    if producer.lifecycle = .retired then
      some { s.setProducer p { producer with lifecycle := .free } with
        consumer := .visit round resume p .pushFree }
    else some { s with consumer := .pass round resume }
  | .pushFree =>
    let registry := s.registry p.pages
    some { (s.setProducer p { producer with nextFreeIndex := registry.freeHead }).setRegistry
        p.pages { registry with freeHead := producer.producerIndex } with
      consumer := .pass round resume }

def flushEvents : List Event := conf.sinks.map .flush

def consumerStep : Option State :=
  match s.consumer with
  | .sampleTicket => some { s with consumer := .pass (.ready s.wakeSeq true) Cursor.first }
  | .pass round cursor => passStep conf s round cursor
  | .visit round resume p stage => visitStep conf s round resume p stage
  | .readRequested seq allDrained =>
    some { s with
      consumer := if s.flushRequested ≠ s.flushCompleted
        then .pass (.flush s.flushRequested) Cursor.first else .readStop seq allDrained }
  | .flushSinks requested =>
    some { s with out := s.out ++ flushEvents conf, consumer := .completeFlush requested }
  | .completeFlush requested =>
    some { s with flushCompleted := requested, consumer := .sampleTicket }
  | .readStop seq allDrained =>
    some { s with
      consumer := if s.stopRequested then .pass (.final true) Cursor.first
        else if allDrained then .wait seq else .sampleTicket }
  | .wait seq => if s.wakeSeq = seq then none else some { s with consumer := .sampleTicket }
  | .finalFlush => some { s with out := s.out ++ flushEvents conf, consumer := .ended }
  | .ended => none

def step : Action → Option State
  | .call t call => if s.pc t = .idle then some (s.setPc t (call.entry s t)) else none
  | .produce t outcome =>
    match s.pc t with
    | .produce channel p => some (produceStep conf s t channel p outcome)
    | _ => none
  | .thread t => threadStep conf s t
  | .consumer => consumerStep conf s

end Step

/-- The hand-off as a transition system. -/
def handoff (conf : Sealed) : Library.System State Action where
  Initial s := ∃ level, s = State.started conf level
  step := step conf

end Unlog.Handoff
