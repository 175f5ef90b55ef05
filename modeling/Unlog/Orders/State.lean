import Unlog.Handoff.State
import Unlog.Library.Transition
import Unlog.Library.Views

/-! # The flush path with its memory orders

The atomics of the flush path as locations with histories, and the programs of the threads and of
the consumer as sequences of accesses with the orders of the source. The runtime runs, no thread
exits, and what a registry's mutex protects is the value of the mutex. The counters are natural
numbers, without their rollover. -/

namespace Unlog.Orders

open Library
open Handoff (Pages)

/-! ## Locations -/

/-- The atomics, and the mutex, of the flush path. -/
inductive Loc where
  | mutex (pages : Pages)
  | count (pages : Pages)
  | tail (pages : Pages) (index : ℕ)
  | enqueued (pages : Pages) (index : ℕ)
  | activeWord (pages : Pages) (word : ℕ)
  | wakeSeq
  | flushRequested
  | flushCompleted
  | activeFlushers
  deriving DecidableEq, Repr

inductive Party where
  | thread (t : ℕ)
  | consumer
  deriving DecidableEq, Repr

/-! ## Threads -/

inductive Call where
  | log (pages : Pages)
  | flush
  deriving DecidableEq, Repr

/-- The next access of a thread. -/
inductive ThreadPc where
  | idle
  | lock (pages : Pages)
  | register (pages : Pages) (size : ℕ)
  | unlock (pages : Pages) (size : ℕ) (registered : Bool)
  | produce (pages : Pages) (index : ℕ)
  | markEnqueued (pages : Pages) (index : ℕ)
  | publishBit (pages : Pages) (index : ℕ)
  | wake
  | enterFlush
  | takeTicket
  | wakeFlush (target : ℕ)
  | waitFlush (target : ℕ)
  | leaveFlush (target : ℕ)
  deriving DecidableEq, Repr

/-- Where a thread is, its producers, and how many records it has published. -/
structure ThreadState where
  pc : ThreadPc := .idle
  tls : Pages → Option ℕ := fun _ => none
  tail : Pages → ℕ := fun _ => 0

def Call.entry (thread : ThreadState) : Call → ThreadPc
  | .log pages =>
    match thread.tls pages with
    | none => .lock pages
    | some index => .produce pages index
  | .flush => .enterFlush

/-- Of `threadsafe_producer`, `note_work` and `flush_backend`. The mutex is 0 while it is locked,
and otherwise one more than the size of `storage`. -/
def ThreadState.access (maxProducers : ℕ) (thread : ThreadState) :
    Option (Access Loc ℕ ThreadState) :=
  match thread.pc with
  | .idle => none
  | .lock pages =>
    some (.update .acquire (.mutex pages) (fun free => if free = 0 then none else some 0)
      fun free =>
        { thread with
          pc := if maxProducers ≤ free - 1 then .unlock pages (free - 1) false
            else .register pages (free - 1) })
  | .register pages size =>
    some (.write .release (.count pages) (size + 1) { thread with pc := .unlock pages size true })
  | .unlock pages size false =>
    some (.write .release (.mutex pages) (size + 1) { thread with pc := .idle })
  | .unlock pages size true =>
    some (.write .release (.mutex pages) (size + 2)
      { thread with
        pc := .produce pages size
        tls := Function.update thread.tls pages (some size) })
  | .produce pages index =>
    some (.write .release (.tail pages index) (thread.tail pages + 1)
      { thread with
        pc := .markEnqueued pages index
        tail := Function.update thread.tail pages (thread.tail pages + 1) })
  | .markEnqueued pages index =>
    some (.update .acqRel (.enqueued pages index) (fun _ => some 1) fun old =>
      { thread with pc := if old = 0 then .publishBit pages index else .idle })
  | .publishBit pages index =>
    some (.update .release (.activeWord pages (index / 64))
      (fun bits => some (bits ||| 1 <<< (index % 64))) fun _ => { thread with pc := .wake })
  | .wake =>
    some (.update .release .wakeSeq (fun seq => some (seq + 1)) fun _ =>
      { thread with pc := .idle })
  | .enterFlush =>
    some (.update .acqRel .activeFlushers (fun flushers => some (flushers + 1)) fun _ =>
      { thread with pc := .takeTicket })
  | .takeTicket =>
    some (.update .relaxed .flushRequested (fun requested => some (requested + 1))
      fun requested => { thread with pc := .wakeFlush (requested + 1) })
  | .wakeFlush target =>
    some (.update .release .wakeSeq (fun seq => some (seq + 1)) fun _ =>
      { thread with pc := .waitFlush target })
  | .waitFlush target =>
    some (.read .acquire .flushCompleted fun completed =>
      { thread with pc := if completed < target then .waitFlush target else .leaveFlush target })
  | .leaveFlush _ =>
    some (.update .release .activeFlushers (fun flushers => some (flushers - 1)) fun _ =>
      { thread with pc := .idle })

/-! ## The consumer -/

/-- Where `finish_drain` is, after `consume_all`. -/
inductive Stage where
  | consume | firstEmpty | clearEnqueued | secondEmpty | remark | publishReady
  deriving DecidableEq, Repr

/-- What the loop over a registry goes on with after a producer. -/
inductive Resume where
  | ready (seq : ℕ) (drained : Bool) (words word : ℕ) (pending : List ℕ)
  | flush (requested count next : ℕ)
  deriving DecidableEq, Repr

/-- The next access of the consumer. -/
inductive ConsumerPc where
  | sampleTicket
  | readyCount (pages : Pages) (seq : ℕ) (drained : Bool)
  | takeWord (pages : Pages) (seq : ℕ) (drained : Bool) (words word : ℕ)
  | flushCount (pages : Pages) (requested : ℕ)
  | visit (pages : Pages) (index : ℕ) (stage : Stage) (resume : Resume)
  | readRequested (seq : ℕ) (drained : Bool)
  | readCompleted (seq : ℕ) (drained : Bool) (requested : ℕ)
  | storeCompleted (requested : ℕ)
  | wait (seq : ℕ)
  deriving DecidableEq, Repr

structure ConsumerState where
  pc : ConsumerPc := .sampleTicket
  head : Pages → ℕ → ℕ := fun _ _ => 0

/-- The normal registry is drained before the huge one. -/
def ConsumerPc.nextWord (pages : Pages) (seq : ℕ) (drained : Bool) (words word : ℕ) : ConsumerPc :=
  if word < words then .takeWord pages seq drained words word
  else
    match pages with
    | .normal => .readyCount .huge seq drained
    | .huge => .readRequested seq drained

/-- The set bits of a word from the lowest. -/
def setBits (bits : ℕ) : List ℕ := (List.range 64).filter bits.testBit

def ConsumerPc.nextReady (pages : Pages) (seq : ℕ) (drained : Bool) (words word : ℕ) :
    List ℕ → ConsumerPc
  | [] => nextWord pages seq drained words (word + 1)
  | bit :: pending =>
    .visit pages (64 * word + bit) .consume (.ready seq drained words word pending)

def ConsumerPc.nextSlot (pages : Pages) (requested count i : ℕ) : ConsumerPc :=
  if i < count then .visit pages i .consume (.flush requested count (i + 1))
  else
    match pages with
    | .normal => .flushCount .huge requested
    | .huge => .storeCompleted requested

/-- After a producer; `drain_flush` does not look at the result. -/
def Resume.next (pages : Pages) (drained : Bool) : Resume → ConsumerPc
  | .ready seq all words word pending =>
    .nextReady pages seq (all && drained) words word pending
  | .flush requested count next => .nextSlot pages requested count next

/-- Of `consumer_main` up to the sinks, with `drain_registry`, `drain_registry_flush`,
`drain_producer` and `finish_drain`. -/
def ConsumerState.access (consumer : ConsumerState) : Access Loc ℕ ConsumerState :=
  match consumer.pc with
  | .sampleTicket =>
    .read .acquire .wakeSeq fun seq => { consumer with pc := .readyCount .normal seq true }
  | .readyCount pages seq drained =>
    .read .acquire (.count pages) fun count =>
      { consumer with pc := .nextWord pages seq drained ((count + 63) / 64) 0 }
  | .takeWord pages seq drained words word =>
    .update .acqRel (.activeWord pages word) (fun _ => some 0) fun bits =>
      { consumer with pc := .nextReady pages seq drained words word (setBits bits) }
  | .flushCount pages requested =>
    .read .acquire (.count pages) fun count =>
      { consumer with pc := .nextSlot pages requested count 0 }
  | .visit pages index .consume resume =>
    .read .acquire (.tail pages index) fun tail =>
      { consumer with
        pc := .visit pages index .firstEmpty resume
        head := Function.update consumer.head pages
          (Function.update (consumer.head pages) index tail) }
  | .visit pages index .firstEmpty resume =>
    .read .acquire (.tail pages index) fun tail =>
      { consumer with
        pc := if consumer.head pages index = tail then .visit pages index .clearEnqueued resume
          else .visit pages index .publishReady resume }
  | .visit pages index .clearEnqueued resume =>
    .update .acqRel (.enqueued pages index) (fun _ => some 0) fun _ =>
      { consumer with pc := .visit pages index .secondEmpty resume }
  | .visit pages index .secondEmpty resume =>
    .read .acquire (.tail pages index) fun tail =>
      { consumer with
        pc := if consumer.head pages index = tail then resume.next pages true
          else .visit pages index .remark resume }
  | .visit pages index .remark resume =>
    .update .acqRel (.enqueued pages index) (fun _ => some 1) fun old =>
      { consumer with
        pc := if old = 0 then .visit pages index .publishReady resume
          else resume.next pages false }
  | .visit pages index .publishReady resume =>
    .update .release (.activeWord pages (index / 64))
      (fun bits => some (bits ||| 1 <<< (index % 64))) fun _ =>
        { consumer with pc := resume.next pages false }
  | .readRequested seq drained =>
    .read .acquire .flushRequested fun requested =>
      { consumer with pc := .readCompleted seq drained requested }
  | .readCompleted seq drained requested =>
    .read .acquire .flushCompleted fun completed =>
      { consumer with
        pc := if requested ≠ completed then .flushCount .normal requested
          else if drained then .wait seq
          else .sampleTicket }
  | .storeCompleted requested =>
    .write .release .flushCompleted requested { consumer with pc := .sampleTicket }
  | .wait seq =>
    .read .acquire .wakeSeq fun now =>
      { consumer with pc := if now = seq then .wait seq else .sampleTicket }

/-! ## The machine -/

structure Machine where
  memory : Memory Party Loc ℕ
  thread : ℕ → ThreadState
  consumer : ConsumerState

inductive Action where
  | call (t : ℕ) (call : Call)
  | thread (t i : ℕ)
  | consumer (i : ℕ)
  deriving DecidableEq, Repr

/-- Every location starts with one message, that of the free mutex of an empty registry being 1. -/
def Machine.initial : Machine where
  memory :=
    { history := fun l =>
        match l with
        | .mutex _ => [⟨1, ⊥⟩]
        | _ => [⟨0, ⊥⟩]
      view := fun _ => ⊥
      acquired := fun _ => [] }
  thread _ := {}
  consumer := {}

/-- An idle thread calls, a thread goes on, or the consumer does; `i` is the message that is
read. -/
def step (maxProducers : ℕ) (m : Machine) : Action → Option Machine
  | .call t call =>
    if (m.thread t).pc = .idle then
      some { m with
        thread := Function.update m.thread t
          { m.thread t with pc := call.entry (m.thread t) } }
    else none
  | .thread t i =>
    ((m.thread t).access maxProducers).bind fun access =>
      (m.memory.perform (.thread t) i access).map fun (memory, thread) =>
        { m with memory := memory, thread := Function.update m.thread t thread }
  | .consumer i =>
    (m.memory.perform .consumer i m.consumer.access).map fun (memory, consumer) =>
      { m with memory := memory, consumer := consumer }

/-- The flush path of a running runtime. -/
def orders (maxProducers : ℕ) : System Machine Action where
  Initial m := m = .initial
  step := step maxProducers

end Unlog.Orders
