import Unlog.Emit.RecordSlot
import Unlog.Emit.CallSite
import Unlog.Handoff.Step

/-! # One log call

`log_message` from the producer it obtains to `note_work`, with the record's text and the
exceptions that cross it. -/

namespace Unlog.Emit

open Pattern Render
open Handoff (State ProducerId Pages Sealed)

/-! ## Producing the record -/

/-- The arguments of `log_message`, and the reading of the configured clock. -/
structure LogRequest (E : Type) where
  route : ℕ
  level : LogLevel
  location : SourceLoc
  formatting : Formatting E
  now : ℤ
  deriving DecidableEq, Repr

/-- What is done to the storage of a slot. -/
inductive SlotEvent where
  | constructAt | destroyAt
  deriving DecidableEq, Repr

structure ProduceRecordOutcome (E : Type) where
  publish : Bool := false
  truncated : Bool := false
  error : Option E := none
  deriving DecidableEq, Repr

/-- What the callback of `produce` leaves: its outcome and the slot with its lifetime. -/
structure ProducedRecord (E : Type) (maxRecordSize : ℕ) where
  outcome : ProduceRecordOutcome E
  slot : BasicRecordSlot maxRecordSize
  lifetime : List SlotEvent
  deriving DecidableEq

section Produce

variable {E : Type} {maxRecordSize : ℕ} (policy : ChannelPolicy)

/-- The `construct_at` of `produce_runtime_record`; `storage` is what the ring held there. -/
def constructSlot (storage : Payload maxRecordSize) (request : LogRequest E) :
    BasicRecordSlot maxRecordSize :=
  .construct storage (some request.route) request.level
    (if policy.timeRequirements ≠ .none then clockNowNs request.now else 0)
    (if policy.captureSourceFile then request.location.filename else none)
    (if policy.captureSourceLine then request.location.line else 0)

/-- `produce_runtime_record`. The clock and the constructor are `noexcept`, so an exception
always finds `constructed` set. -/
def produceRuntimeRecord (storage : Payload maxRecordSize) (request : LogRequest E)
    (overflowDrop : Bool) : Option (ProducedRecord E maxRecordSize) :=
  match writeRecordSlotUnlimited (constructSlot policy storage request)
      (if overflowDrop then .drop else .truncate) request.formatting with
  | none => none
  | some (slot, .ok .written) => some ⟨{ publish := true }, slot, [.constructAt]⟩
  | some (slot, .ok .truncated) =>
    some ⟨{ publish := true, truncated := true }, slot, [.constructAt]⟩
  | some (slot, .ok .dropped) => some ⟨{}, slot, [.constructAt, .destroyAt]⟩
  | some (slot, .error error) => some ⟨{ error := some error }, slot, [.constructAt, .destroyAt]⟩

end Produce

/-! ## Obtaining the producer -/

inductive StdException where
  | runtimeError (what : Text)
  | logicError (what : Text)
  | badAlloc
  deriving DecidableEq, Repr

/-- `Policy::huge_pages` as a template argument. -/
def policyPages (policy : ChannelPolicy) : Pages := if policy.hugePages then .huge else .normal

section Obtain

variable (conf : Sealed) (s : State) (t : ℕ)

/-- `threadsafe_producer` called by thread `t`; `allocates` tells whether `emplace_back` finds
memory, and `none` is a null entry of `slots`. -/
def threadsafeProducer (pages : Pages) (allocates : Bool) :
    Option (Except StdException (State × ProducerId)) :=
  match s.tls t pages with
  | some index => some (.ok (s, .pooled pages index))
  | none =>
    let registry := s.registry pages
    if registry.freeHead ≠ conf.maxProducers then
      match registry.slots registry.freeHead with
      | none => none
      | some index =>
        let producer := s.producer (.pooled pages index)
        some (.ok
          (((s.setRegistry pages { registry with freeHead := producer.nextFreeIndex }).setProducer
            (.pooled pages index) (producer.reactivate conf)).setTls t pages (some index),
          .pooled pages index))
    else if conf.maxProducers ≤ registry.size then
      some (.error (.runtimeError (ascii "threadsafe producer capacity exceeded")))
    else if allocates = false then some (.error .badAlloc)
    else
      let index := registry.size
      let producer := s.producer (.pooled pages index)
      some (.ok
        (((s.setRegistry pages { registry with
            size := registry.size + 1
            slots := Function.update registry.slots index (some index)
            count := index + 1 }).setProducer
          (.pooled pages index) (producer.bindActiveWord pages index)).setTls t pages
            (some index),
        .pooled pages index))

/-- `diagnostic_assert_thread`, which is empty in other builds. -/
def diagnosticAssertThread (p : ProducerId) : Except StdException State :=
  if conf.diagnostic then
    match (s.producer p).owner with
    | none => .ok (s.setProducer p { s.producer p with owner := some t })
    | some owner =>
      if owner = t then .ok s
      else .error (.logicError (ascii "single-threaded producer used from multiple threads"))
  else .ok s

/-- `producer<Policy>()`. -/
def obtainProducer (policy : ChannelPolicy) (allocates : Bool) :
    Option (Except StdException (State × ProducerId)) :=
  match policy.runtimeMode with
  | .threadsafe => threadsafeProducer conf s t (policyPages policy) allocates
  | .singleThreaded =>
    let p := ProducerId.single (policyPages policy)
    some ((diagnosticAssertThread conf s t p).map fun s => (s, p))

end Obtain

/-! ## The call -/

section Counters

variable (conf : Sealed) (s : State) (p : ProducerId)

def countDropped : State :=
  if conf.diagnostic then
    s.setProducer p { s.producer p with dropped := (s.producer p).dropped + 1 }
  else s

/-- `count_emitted` and, for a truncated record, `count_truncated`. -/
def countPublished (truncated : Bool) : State :=
  if conf.diagnostic then
    let emitted := s.setProducer p { s.producer p with emitted := (s.producer p).emitted + 1 }
    if truncated then
      emitted.setProducer p
        { emitted.producer p with truncated := (emitted.producer p).truncated + 1 }
    else emitted
  else s

def noteWork (policy : ChannelPolicy) : State :=
  if (s.producer p).enqueued then s
  else
    let marked := s.setProducer p { s.producer p with enqueued := true }
    let signalled :=
      if policy.runtimeMode = .threadsafe then marked.publishReadyBit p else marked
    { signalled with wakeSeq := signalled.wakeSeq + 1 }

end Counters

/-- The shared memory with the slots behind the records of its queues. -/
structure Backend (maxRecordSize : ℕ) where
  shared : State
  slots : ProducerId → List (BasicRecordSlot maxRecordSize)

inductive LogError (E : Type) where
  | producer (error : StdException)
  | formatting (error : E)
  deriving DecidableEq, Repr

/-- How a call ends: normally or by an exception. `lifetime` is what was done to a slot. -/
structure LogReturn (E : Type) (maxRecordSize : ℕ) where
  backend : Backend maxRecordSize
  result : Except (LogError E) Unit
  lifetime : List SlotEvent

section Call

variable {E : Type} {maxRecordSize : ℕ} (conf : Sealed)

def Backend.publish (b : Backend maxRecordSize) (p : ProducerId) (route : ℕ)
    (slot : BasicRecordSlot maxRecordSize) : Backend maxRecordSize where
  shared :=
    let producer := b.shared.producer p
    b.shared.setProducer p { producer with
      queue := { producer.queue with
        published := producer.queue.published ++ [⟨route, slot.header.truncated⟩] } }
  slots := Function.update b.slots p (b.slots p ++ [slot])

/-- `queue().produce` as assumed: a full queue does not run the callback, and the slot is
appended when the callback returns true. -/
def produce (b : Backend maxRecordSize) (p : ProducerId) (policy : ChannelPolicy)
    (storage : Payload maxRecordSize) (request : LogRequest E) :
    Option (Backend maxRecordSize × Bool × ProduceRecordOutcome E × List SlotEvent) :=
  let queue := (b.shared.producer p).queue
  if conf.capacity p.pages ≤ queue.tail - queue.head then some (b, false, {}, [])
  else
    (produceRuntimeRecord policy storage request (policy.overflowPolicy = .drop)).map
      fun produced =>
        (if produced.outcome.publish then b.publish p request.route produced.slot else b,
          produced.outcome.publish, produced.outcome, produced.lifetime)

/-- `log_message`. -/
def logMessage (b : Backend maxRecordSize) (t : ℕ) (policy : ChannelPolicy) (allocates : Bool)
    (storage : Payload maxRecordSize) (request : LogRequest E) :
    Option (LogReturn E maxRecordSize) :=
  match obtainProducer conf b.shared t policy allocates with
  | none => none
  | some (.error error) => some ⟨b, .error (.producer error), []⟩
  | some (.ok (s, p)) =>
    (produce conf { b with shared := s } p policy storage request).map
      fun (b, published, outcome, lifetime) =>
        match outcome.error with
        | some error => ⟨b, .error (.formatting error), lifetime⟩
        | none =>
          if published = false then
            ⟨{ b with shared := countDropped conf b.shared p }, .ok (), lifetime⟩
          else
            let counted := countPublished conf b.shared p outcome.truncated
            ⟨{ b with shared := noteWork counted p policy }, .ok (), lifetime⟩

end Call

end Unlog.Emit
