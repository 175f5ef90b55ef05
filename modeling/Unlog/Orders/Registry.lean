import Unlog.Orders.State

/-! # Registration and publication under weak memory

Registrations are numbered, each queue has one owner, and who knows of a record knows of the
registration of its producer. -/

namespace Unlog.Orders

open Library
open Handoff (Pages)

variable {maxProducers : ℕ} {m m' : Machine} {a : Action} {t : ℕ} {pages : Pages}
  {memory : Memory Party Loc ℕ}

/-! ## Steps -/

/-- A step of one thread. -/
def Machine.after (m : Machine) (t : ℕ) (memory : Memory Party Loc ℕ) (next : ThreadState) :
    Machine :=
  { m with memory := memory, thread := Function.update m.thread t next }

@[simp] theorem Machine.after_memory (next : ThreadState) :
    (m.after t memory next).memory = memory := rfl

@[simp] theorem Machine.after_self (next : ThreadState) :
    (m.after t memory next).thread t = next :=
  Function.update_self ..

theorem Machine.after_of_ne {next : ThreadState} {t' : ℕ} (h : t' ≠ t) :
    (m.after t memory next).thread t' = m.thread t' :=
  Function.update_of_ne h ..

/-- What holds of the thread that went on and of all others holds of all. -/
theorem after_all {P : ℕ → ThreadState → Prop} {next : ThreadState} (hself : P t next)
    (hother : ∀ t', t' ≠ t → P t' (m.thread t')) (t' : ℕ) :
    P t' ((m.after t memory next).thread t') := by
  by_cases h : t' = t
  · subst h
    rw [Machine.after_self]
    exact hself
  · rw [Machine.after_of_ne h]
    exact hother t' h

inductive StepKind (maxProducers : ℕ) (m : Machine) : Action → Machine → Prop
  | call {t : ℕ} {call : Call} (hidle : (m.thread t).pc = .idle) :
      StepKind maxProducers m (.call t call)
        (m.after t m.memory { m.thread t with pc := call.entry (m.thread t) })
  | thread {t i : ℕ} {access : Access Loc ℕ ThreadState} {memory : Memory Party Loc ℕ}
      {next : ThreadState} (haccess : (m.thread t).access maxProducers = some access)
      (hperforms : m.memory.Performs (.thread t) i access memory next) :
      StepKind maxProducers m (.thread t i) (m.after t memory next)
  | consumer {i : ℕ} {memory : Memory Party Loc ℕ} {next : ConsumerState}
      (hperforms : m.memory.Performs .consumer i m.consumer.access memory next) :
      StepKind maxProducers m (.consumer i) { m with memory := memory, consumer := next }

theorem step_kind (hstep : (orders maxProducers).step m a = some m') :
    StepKind maxProducers m a m' := by
  cases a with
  | call t call =>
      simp only [orders, step] at hstep
      split at hstep
      case isTrue hidle =>
        obtain rfl := Option.some.inj hstep
        exact .call hidle
      case isFalse => contradiction
  | thread t i =>
      obtain ⟨access, haccess, hrest⟩ := Option.bind_eq_some_iff.mp hstep
      obtain ⟨⟨memory, next⟩, hperform, rfl⟩ := Option.map_eq_some_iff.mp hrest
      exact .thread haccess (Memory.performs_of hperform)
  | consumer i =>
      obtain ⟨⟨memory, next⟩, hperform, rfl⟩ := Option.map_eq_some_iff.mp hstep
      exact .consumer (Memory.performs_of hperform)

theorem initial_message {l : Loc} {i : ℕ} {message : Message Loc ℕ}
    (h : (Machine.initial.memory.history l)[i]? = some message) : i = 0 ∧ message.view = ⊥ := by
  have hlt := (List.getElem?_eq_some_iff.mp h).1
  cases l with
  | mutex pages | _ =>
      obtain rfl : i = 0 := by simpa [Machine.initial] using hlt
      obtain rfl := Option.some.inj h
      exact ⟨rfl, rfl⟩

theorem initial_sound : Machine.initial.memory.Sound := by
  have hbounded : Machine.initial.memory.Bounded ⊥ := fun l => by
    cases l <;> simp [Machine.initial]
  refine
    { own := fun l i message h => ?_
      messages := fun l i message h => ?_
      parties := fun p => hbounded
      acquired := fun p l i hmem => absurd hmem List.not_mem_nil }
  · obtain ⟨rfl, hview⟩ := initial_message h
    rw [hview]
    rfl
  · rw [(initial_message h).2]
    exact hbounded

theorem sound_of_reachable (h : (orders maxProducers).Reachable m) : m.memory.Sound := by
  refine h.invariant (I := fun m => m.memory.Sound) ?_ fun m a m' _ hs hstep => ?_
  · rintro m rfl
    exact initial_sound
  · cases step_kind hstep with
    | call => exact hs
    | thread _ hperforms => exact hperforms.sound hs
    | consumer hperforms => exact hperforms.sound hs

/-! ## What the programs write -/

/-- Who writes what: only an owner its queue, and only who holds the mutex what it protects. -/
def ThreadPc.Writes : ThreadPc → Loc → Prop
  | .lock pages, l | .unlock pages _ _, l => l = .mutex pages
  | .register pages _, l => l = .count pages
  | .produce pages index, l => l = .tail pages index
  | .takeTicket, l => l = .flushRequested
  | .markEnqueued pages index, l => l = .enqueued pages index
  | .publishBit pages index, l => l = .activeWord pages (index / 64)
  | .wake, l | .wakeFlush _, l => l = .wakeSeq
  | .enterFlush, l | .leaveFlush _, l => l = .activeFlushers
  | .idle, _ | .waitFlush _, _ => False

theorem writes_of_access {thread : ThreadState} {access : Access Loc ℕ ThreadState} {l : Loc}
    (haccess : thread.access maxProducers = some access) (hl : access.written? = some l) :
    thread.pc.Writes l := by
  cases hpc : thread.pc with
  | idle => simp [ThreadState.access, hpc] at haccess
  | waitFlush target =>
      simp only [ThreadState.access, hpc, Option.some.injEq] at haccess
      subst haccess
      contradiction
  | unlock pages size registered =>
      cases registered <;>
        (simp only [ThreadState.access, hpc, Option.some.injEq] at haccess
         subst haccess
         exact (Option.some.inj hl).symm)
  | _ =>
      simp only [ThreadState.access, hpc, Option.some.injEq] at haccess
      subst haccess
      exact (Option.some.inj hl).symm

/-- What the consumer does not write. -/
def Loc.foreign : Loc → Bool
  | .mutex _ | .count _ | .tail _ _ | .flushRequested | .wakeSeq | .activeFlushers => true
  | .enqueued _ _ | .activeWord _ _ | .flushCompleted => false

theorem foreign_of_consumer {consumer : ConsumerState} {l : Loc}
    (hl : consumer.access.written? = some l) : l.foreign = false := by
  unfold ConsumerState.access at hl
  split at hl <;> simp [Access.written?] at hl <;> subst hl <;> rfl

/-- What a thread does with its next access: where it goes, and what becomes of its locals. -/
inductive Goes (thread : ThreadState) : ThreadState → Prop
  | lock {pages : Pages} {size : ℕ} (h : thread.pc = .lock pages) :
      Goes thread { thread with pc := .register pages size }
  | full {pages : Pages} {size : ℕ} (h : thread.pc = .lock pages) :
      Goes thread { thread with pc := .unlock pages size false }
  | register {pages : Pages} {size : ℕ} (h : thread.pc = .register pages size) :
      Goes thread { thread with pc := .unlock pages size true }
  | refuse {pages : Pages} {size : ℕ} (h : thread.pc = .unlock pages size false) :
      Goes thread { thread with pc := .idle }
  | own {pages : Pages} {size : ℕ} (h : thread.pc = .unlock pages size true) :
      Goes thread { thread with
        pc := .produce pages size
        tls := Function.update thread.tls pages (some size) }
  | produce {pages : Pages} {index : ℕ} (h : thread.pc = .produce pages index) :
      Goes thread { thread with
        pc := .markEnqueued pages index
        tail := Function.update thread.tail pages (thread.tail pages + 1) }
  | mark {pages : Pages} {index : ℕ} (h : thread.pc = .markEnqueued pages index) :
      Goes thread { thread with pc := .publishBit pages index }
  | marked {pages : Pages} {index : ℕ} (h : thread.pc = .markEnqueued pages index) :
      Goes thread { thread with pc := .idle }
  | publish {pages : Pages} {index : ℕ} (h : thread.pc = .publishBit pages index) :
      Goes thread { thread with pc := .wake }
  | wake (h : thread.pc = .wake) : Goes thread { thread with pc := .idle }
  | enter (h : thread.pc = .enterFlush) : Goes thread { thread with pc := .takeTicket }
  | take {target : ℕ} (h : thread.pc = .takeTicket) :
      Goes thread { thread with pc := .wakeFlush target }
  | bump {target : ℕ} (h : thread.pc = .wakeFlush target) :
      Goes thread { thread with pc := .waitFlush target }
  | wait {target : ℕ} (h : thread.pc = .waitFlush target) :
      Goes thread { thread with pc := .waitFlush target }
  | served {target : ℕ} (h : thread.pc = .waitFlush target) :
      Goes thread { thread with pc := .leaveFlush target }
  | leave {target : ℕ} (h : thread.pc = .leaveFlush target) : Goes thread { thread with pc := .idle }

theorem goes_of_performs {thread next : ThreadState} {access : Access Loc ℕ ThreadState} {p : Party}
    {i : ℕ} (haccess : thread.access maxProducers = some access)
    (hperforms : m.memory.Performs p i access memory next) : Goes thread next := by
  cases hpc : thread.pc with
  | idle => simp [ThreadState.access, hpc] at haccess
  | lock pages =>
      simp only [ThreadState.access, hpc, Option.some.injEq] at haccess
      subst haccess
      cases hperforms
      dsimp only
      split
      · exact .full hpc
      · exact .lock hpc
  | unlock pages size registered =>
      cases registered with
      | false =>
          simp only [ThreadState.access, hpc, Option.some.injEq] at haccess
          subst haccess
          cases hperforms
          exact .refuse hpc
      | true =>
          simp only [ThreadState.access, hpc, Option.some.injEq] at haccess
          subst haccess
          cases hperforms
          exact .own hpc
  | markEnqueued pages index =>
      simp only [ThreadState.access, hpc, Option.some.injEq] at haccess
      subst haccess
      cases hperforms
      dsimp only
      split
      · exact .mark hpc
      · exact .marked hpc
  | waitFlush target =>
      simp only [ThreadState.access, hpc, Option.some.injEq] at haccess
      subst haccess
      cases hperforms
      dsimp only
      split
      · exact .wait hpc
      · exact .served hpc
  | _ =>
      simp only [ThreadState.access, hpc, Option.some.injEq] at haccess
      subst haccess
      cases hperforms
      first
      | exact .register hpc
      | exact .produce hpc
      | exact .publish hpc
      | exact .wake hpc
      | exact .enter hpc
      | exact .take hpc
      | exact .bump hpc
      | exact .leave hpc

/-- A thread changes its producers where it unlocks after a registration, and its tails where it
publishes. -/
theorem Goes.locals {thread next : ThreadState} (h : Goes thread next) :
    (next.tls = thread.tls ∨ ∃ pages size, thread.pc = .unlock pages size true ∧
        next.tls = Function.update thread.tls pages (some size)) ∧
      (next.tail = thread.tail ∨ ∃ pages index, thread.pc = .produce pages index ∧
        next.tail = Function.update thread.tail pages (thread.tail pages + 1)) := by
  cases h with
  | own hpc => exact ⟨.inr ⟨_, _, hpc, rfl⟩, .inl rfl⟩
  | produce hpc => exact ⟨.inl rfl, .inr ⟨_, _, hpc, rfl⟩⟩
  | _ => exact ⟨.inl rfl, .inl rfl⟩

/-! ## The registry -/

/-- The value of every message is its position. -/
def Numbered (memory : Memory Party Loc ℕ) (l : Loc) : Prop :=
  ∀ (i : ℕ) (message : Message Loc ℕ), (memory.history l)[i]? = some message → message.value = i

/-- The last value of a location. -/
def last? (memory : Memory Party Loc ℕ) (l : Loc) : Option ℕ :=
  (memory.history l).getLast?.map Message.value

/-- The thread is in the critical section of `threadsafe_producer`. -/
def ThreadPc.Locks (pages : Pages) : ThreadPc → Prop
  | .register pages' _ | .unlock pages' _ _ => pages' = pages
  | _ => False

/-- The thread is in `threadsafe_producer` without a producer. -/
def ThreadPc.Acquires (pages : Pages) (pc : ThreadPc) : Prop :=
  pc = .lock pages ∨ pc.Locks pages

/-- The mutex protects the registry, and registrations are counted. -/
structure Guarded (m : Machine) (pages : Pages) : Prop where
  counts : Numbered m.memory (.count pages)
  locked : ∀ t, (m.thread t).pc.Locks pages → last? m.memory (.mutex pages) = some 0
  alone : ∀ t t', (m.thread t).pc.Locks pages → (m.thread t').pc.Locks pages → t = t'
  free : ∀ n, last? m.memory (.mutex pages) = some (n + 1) →
    (m.memory.history (.count pages)).length = n + 1
  registering : ∀ t size, (m.thread t).pc = .register pages size ∨
    (m.thread t).pc = .unlock pages size false →
      (m.memory.history (.count pages)).length = size + 1
  registered : ∀ t size, (m.thread t).pc = .unlock pages size true →
    (m.memory.history (.count pages)).length = size + 2

/-- A queue has the records of its one owner, who knows of its registration. -/
structure Owned (m : Machine) (pages : Pages) : Prop where
  tails : ∀ i, Numbered m.memory (.tail pages i)
  acquiring : ∀ t, (m.thread t).pc.Acquires pages → (m.thread t).tls pages = none
  empty : ∀ t, (m.thread t).tls pages = none → (m.thread t).tail pages = 0
  owned : ∀ t i, (m.thread t).tls pages = some i →
    (m.memory.history (.tail pages i)).length = (m.thread t).tail pages + 1 ∧
      i < m.memory.view (.thread t) (.count pages)
  fresh : ∀ i, (∀ t, (m.thread t).tls pages ≠ some i) →
    (m.memory.history (.tail pages i)).length = 1
  unique : ∀ t t' i, (m.thread t).tls pages = some i → (m.thread t').tls pages = some i → t = t'
  producing : ∀ t i, (m.thread t).pc = .produce pages i → (m.thread t).tls pages = some i
  registered : ∀ t size, (m.thread t).pc = .unlock pages size true →
    size < m.memory.view (.thread t) (.count pages) ∧ ∀ t', (m.thread t').tls pages ≠ some size

theorem Numbered.congr {memory' : Memory Party Loc ℕ} {l : Loc} (h : Numbered memory l)
    (heq : memory'.history l = memory.history l) : Numbered memory' l :=
  fun i message hmessage => h i message (heq ▸ hmessage)

theorem last_congr {memory' : Memory Party Loc ℕ} {l : Loc}
    (heq : memory'.history l = memory.history l) : last? memory' l = last? memory l := by
  rw [last?, last?, heq]

/-- Positions are the values if the value that is written is the next position. -/
theorem Numbered.writes {p : Party} {o : Order} {l l' : Loc} {value : ℕ} {carried : View Loc}
    (h : Numbered memory l') (hvalue : l' = l → value = (memory.history l).length) :
    Numbered (memory.writes p o l value carried) l' := by
  intro i message hmessage
  rcases Memory.writes_getElem? hmessage with hold | ⟨rfl, rfl, rfl⟩
  · exact h i message hold
  · exact hvalue rfl

theorem last_writes {p : Party} {o : Order} {l : Loc} {value : ℕ} {carried : View Loc} :
    last? (memory.writes p o l value carried) l = some value := by
  rw [last?, Memory.writes_history_self, List.getLast?_concat]
  rfl

theorem length_writes {p : Party} {o : Order} {l : Loc} {value : ℕ} {carried : View Loc} :
    ((memory.writes p o l value carried).history l).length = (memory.history l).length + 1 := by
  simp [Memory.writes_history_self]

/-- A step that leaves the mutex and the count alone. -/
theorem Guarded.keep (h : Guarded m pages)
    (hmutex : m'.memory.history (.mutex pages) = m.memory.history (.mutex pages))
    (hcount : m'.memory.history (.count pages) = m.memory.history (.count pages))
    (hpc : ∀ t, (m'.thread t).pc.Locks pages → (m'.thread t).pc = (m.thread t).pc) :
    Guarded m' pages := by
  have hlast := last_congr hmutex
  refine
    { counts := h.counts.congr hcount
      locked := fun t hl => hlast ▸ h.locked t (hpc t hl ▸ hl)
      alone := fun t t' ht ht' => h.alone t t' (hpc t ht ▸ ht) (hpc t' ht' ▸ ht')
      free := fun n hn => hcount ▸ h.free n (hlast ▸ hn)
      registering := fun t size hreg => ?_
      registered := fun t size hreg => ?_ }
  · have hl : (m'.thread t).pc.Locks pages := by
      rcases hreg with hreg | hreg <;> rw [hreg] <;> rfl
    rw [hcount]
    exact h.registering t size (hpc t hl ▸ hreg)
  · have hl : (m'.thread t).pc.Locks pages := by
      rw [hreg]
      rfl
    rw [hcount]
    exact h.registered t size (hpc t hl ▸ hreg)

/-- Nobody is in the critical section. -/
theorem Guarded.of_open (hcounts : Numbered m.memory (.count pages))
    (hopen : ∀ t, ¬ (m.thread t).pc.Locks pages)
    (hfree : ∀ n, last? m.memory (.mutex pages) = some (n + 1) →
      (m.memory.history (.count pages)).length = n + 1) : Guarded m pages :=
  { counts := hcounts
    locked := fun t hl => absurd hl (hopen t)
    alone := fun t _ hl => absurd hl (hopen t)
    free := hfree
    registering := fun t size hreg =>
      absurd (by rcases hreg with h | h <;> rw [h] <;> rfl) (hopen t)
    registered := fun t size hreg => absurd (by rw [hreg]; rfl) (hopen t) }

/-- One thread is in the critical section. -/
theorem Guarded.of_locked (hcounts : Numbered m.memory (.count pages))
    (hlast : last? m.memory (.mutex pages) = some 0)
    (halone : ∀ t', (m.thread t').pc.Locks pages → t' = t)
    (hregistering : ∀ size, (m.thread t).pc = .register pages size ∨
      (m.thread t).pc = .unlock pages size false →
        (m.memory.history (.count pages)).length = size + 1)
    (hregistered : ∀ size, (m.thread t).pc = .unlock pages size true →
      (m.memory.history (.count pages)).length = size + 2) : Guarded m pages := by
  refine
    { counts := hcounts
      locked := fun _ _ => hlast
      alone := fun t' t'' ht' ht'' => (halone t' ht').trans (halone t'' ht'').symm
      free := fun n hn => ?_
      registering := fun t' size hreg => ?_
      registered := fun t' size hreg => ?_ }
  · rw [hlast] at hn
    simp at hn
  · obtain rfl := halone t' (by rcases hreg with h | h <;> rw [h] <;> rfl)
    exact hregistering size hreg
  · obtain rfl := halone t' (by rw [hreg]; rfl)
    exact hregistered size hreg

/-- A step that leaves the queues and their owners alone. -/
theorem Owned.keep (h : Owned m pages)
    (htail : ∀ i, m'.memory.history (.tail pages i) = m.memory.history (.tail pages i))
    (hview : ∀ p, m.memory.view p ≤ m'.memory.view p)
    (htls : ∀ t, (m'.thread t).tls pages = (m.thread t).tls pages)
    (htails : ∀ t, (m'.thread t).tail pages = (m.thread t).tail pages)
    (hacquires : ∀ t, (m'.thread t).pc.Acquires pages → (m.thread t).tls pages = none)
    (hproduce : ∀ t i, (m'.thread t).pc = .produce pages i → (m.thread t).tls pages = some i)
    (hregister : ∀ t size, (m'.thread t).pc = .unlock pages size true →
      size < m'.memory.view (.thread t) (.count pages) ∧
        ∀ t', (m.thread t').tls pages ≠ some size) : Owned m' pages := by
  refine
    { tails := fun i => (h.tails i).congr (htail i)
      acquiring := fun t hacq => (htls t).trans (hacquires t hacq)
      empty := fun t hnone => (htails t).trans (h.empty t (htls t ▸ hnone))
      owned := fun t i hsome => ?_
      fresh := fun i hnot => htail i ▸ h.fresh i fun t => htls t ▸ hnot t
      unique := fun t t' i ht ht' => h.unique t t' i (htls t ▸ ht) (htls t' ▸ ht')
      producing := fun t i hprod => (htls t).trans (hproduce t i hprod)
      registered := fun t size hreg => ?_ }
  · obtain ⟨hlength, hlt⟩ := h.owned t i (htls t ▸ hsome)
    rw [htail, htails]
    exact ⟨hlength, hlt.trans_le (hview _ _)⟩
  · obtain ⟨hlt, hnot⟩ := hregister t size hreg
    exact ⟨hlt, fun t' => (htls t').symm ▸ hnot t'⟩

/-- A step of one thread that keeps its producer, or gets one that nobody has. -/
theorem Owned.after {next : ThreadState} (h : Owned m pages)
    (hview : ∀ t', t' ≠ t → memory.view (.thread t') = m.memory.view (.thread t'))
    (htails : ∀ i, Numbered memory (.tail pages i))
    (hacquiring : next.pc.Acquires pages → next.tls pages = none)
    (hempty : next.tls pages = none → next.tail pages = 0)
    (hproducing : ∀ i, next.pc = .produce pages i → next.tls pages = some i)
    (hunlocked : ∀ size, next.pc ≠ .unlock pages size true)
    (howned : ∀ i, next.tls pages = some i →
      (memory.history (.tail pages i)).length = next.tail pages + 1 ∧
        i < memory.view (.thread t) (.count pages))
    (hkept : ∀ i, (m.thread t).tls pages = some i → next.tls pages = some i)
    (hsole : ∀ t', t' ≠ t → ∀ i, next.tls pages = some i → (m.thread t').tls pages ≠ some i)
    (hrest : ∀ i, next.tls pages ≠ some i →
      (memory.history (.tail pages i)).length = (m.memory.history (.tail pages i)).length)
    (hregistered : ∀ t', t' ≠ t → ∀ size, (m.thread t').pc = .unlock pages size true →
      next.tls pages ≠ some size) : Owned (m.after t memory next) pages := by
  refine
    { tails := htails
      acquiring := after_all (P := fun _ thread => thread.pc.Acquires pages →
        thread.tls pages = none) hacquiring fun t' _ => h.acquiring t'
      empty := after_all (P := fun _ thread => thread.tls pages = none →
        thread.tail pages = 0) hempty fun t' _ => h.empty t'
      owned := after_all (P := fun t' thread => ∀ i, thread.tls pages = some i →
        (memory.history (.tail pages i)).length = thread.tail pages + 1 ∧
          i < memory.view (.thread t') (.count pages)) howned fun t' hne i hi => ?_
      fresh := fun i hnot => ?_
      unique := fun t' t'' i ht' ht'' => ?_
      producing := after_all (P := fun _ thread => ∀ i, thread.pc = .produce pages i →
        thread.tls pages = some i) hproducing fun t' _ => h.producing t'
      registered := after_all (P := fun t' thread => ∀ size,
        thread.pc = .unlock pages size true → size < memory.view (.thread t') (.count pages) ∧
          ∀ t'', ((m.after t memory next).thread t'').tls pages ≠ some size)
        (fun size hpc => absurd hpc (hunlocked size)) fun t' hne size hpc => ?_ }
  · rw [hrest i fun hself => hsole t' hne i hself hi, hview t' hne]
    exact h.owned t' i hi
  · have hself := hnot t
    rw [Machine.after_self] at hself
    refine (hrest i hself).trans (h.fresh i fun t' ht' => ?_)
    by_cases hne : t' = t
    · subst hne
      exact hself (hkept i ht')
    · have hother := hnot t'
      rw [Machine.after_of_ne hne] at hother
      exact hother ht'
  · by_cases ht : t' = t
    · subst ht
      rw [Machine.after_self] at ht'
      by_contra hne
      rw [Machine.after_of_ne (Ne.symm hne)] at ht''
      exact hsole t'' (Ne.symm hne) i ht' ht''
    · rw [Machine.after_of_ne ht] at ht'
      by_cases hne : t'' = t
      · subst hne
        rw [Machine.after_self] at ht''
        exact absurd ht' (hsole t' ht i ht'')
      · rw [Machine.after_of_ne hne] at ht''
        exact h.unique t' t'' i ht' ht''
  · obtain ⟨hlt, hfree⟩ := h.registered t' size hpc
    refine ⟨hview t' hne ▸ hlt, ?_⟩
    exact after_all (P := fun _ thread => thread.tls pages ≠ some size)
      (hregistered t' hne size hpc) fun t'' _ => hfree t''

/-- The registries and the queues are as their programs leave them. -/
def RegistrySound (m : Machine) : Prop := ∀ pages, Guarded m pages ∧ Owned m pages

/-! ## One thread goes on -/

/-- Only who is in `threadsafe_producer` goes on in it. -/
theorem Goes.acquires {thread next : ThreadState} (h : Goes thread next)
    (hn : next.pc.Acquires pages) : thread.pc.Acquires pages := by
  cases h with
  | lock hpc | full hpc =>
      rw [hpc]
      rcases hn with hn | hn
      · contradiction
      · exact .inl (congrArg ThreadPc.lock hn)
  | register hpc =>
      rw [hpc]
      rcases hn with hn | hn
      · contradiction
      · exact .inr hn
  | _ => rcases hn with hn | hn <;> contradiction

theorem acquires_of_writes {pc : ThreadPc}
    (h : pc.Writes (.mutex pages) ∨ pc.Writes (.count pages)) : pc.Acquires pages := by
  cases pc with
  | lock pages' =>
      rcases h with h | h
      · exact .inl (congrArg ThreadPc.lock (Loc.mutex.inj h).symm)
      · contradiction
  | unlock pages' size registered =>
      rcases h with h | h
      · exact .inr (Loc.mutex.inj h).symm
      · contradiction
  | register pages' size =>
      rcases h with h | h
      · contradiction
      · exact .inr (Loc.count.inj h).symm
  | idle | waitFlush => exact h.elim False.elim False.elim
  | _ => rcases h with h | h <;> contradiction

section Step

variable {i : ℕ} {access : Access Loc ℕ ThreadState} {next : ThreadState}
  (haccess : (m.thread t).access maxProducers = some access)
  (hperforms : m.memory.Performs (.thread t) i access memory next)

include haccess hperforms

theorem history_of_writes {l : Loc} (h : ¬ (m.thread t).pc.Writes l) :
    memory.history l = m.memory.history l :=
  hperforms.history_of_ne fun hl => h (writes_of_access haccess hl)

/-- The thread enters the critical section: the mutex was free, so nobody else is in it. -/
theorem guarded_lock (h : Guarded m pages) (hpc : (m.thread t).pc = .lock pages) :
    Guarded (m.after t memory next) pages := by
  simp only [ThreadState.access, hpc, Option.some.injEq] at haccess
  subst haccess
  cases hperforms with
  | @update _ _ _ _ message value hlast hvalue =>
      obtain ⟨k, hk⟩ : ∃ k, message.value = k + 1 := by
        refine Nat.exists_eq_succ_of_ne_zero fun hzero => ?_
        simp [hzero] at hvalue
      obtain rfl : value = 0 := by simpa [hk] using hvalue.symm
      have hfree : last? m.memory (.mutex pages) = some (k + 1) := by
        rw [last?, hlast, Option.map_some, hk]
      have hlength := h.free k hfree
      have hopen : ∀ t', ¬ (m.thread t').pc.Locks pages := fun t' hl => by
        rw [h.locked t' hl] at hfree
        simp at hfree
      have hsize : ∀ size, (if maxProducers ≤ message.value - 1 then
          ThreadPc.unlock pages (message.value - 1) false
          else .register pages (message.value - 1)) = .register pages size ∨
        (if maxProducers ≤ message.value - 1 then
          ThreadPc.unlock pages (message.value - 1) false
          else .register pages (message.value - 1)) = .unlock pages size false →
          size = k := by
        intro size hreg
        rw [hk, Nat.add_sub_cancel] at hreg
        split at hreg <;> simpa [eq_comm] using hreg
      apply Guarded.of_locked (t := t) _ last_writes
      · exact after_all (P := fun t' thread => thread.pc.Locks pages → t' = t)
          (fun _ => rfl) fun t' _ hl => absurd hl (hopen t')
      · intro size hreg
        rw [Machine.after_self] at hreg
        rw [hsize size hreg]
        exact (congrArg List.length (Memory.writes_history_of_ne (by simp))).trans hlength
      · intro size hreg
        rw [Machine.after_self] at hreg
        dsimp only at hreg
        split at hreg <;> simp at hreg
      · exact h.counts.congr (Memory.writes_history_of_ne (by simp))

/-- The thread in the critical section stores the new count. -/
theorem guarded_register (h : Guarded m pages) {size : ℕ}
    (hpc : (m.thread t).pc = .register pages size) : Guarded (m.after t memory next) pages := by
  have hlength := h.registering t size (.inl hpc)
  have hlocks : (m.thread t).pc.Locks pages := by
    rw [hpc]
    rfl
  simp only [ThreadState.access, hpc, Option.some.injEq] at haccess
  subst haccess
  cases hperforms with
  | write =>
      apply Guarded.of_locked (t := t)
      · exact h.counts.writes fun _ => hlength.symm
      · exact (last_congr (Memory.writes_history_of_ne (by simp))).trans (h.locked t hlocks)
      · exact after_all (P := fun t' thread => thread.pc.Locks pages → t' = t)
          (fun _ => rfl) fun t' _ hl => h.alone t' t hl hlocks
      · intro size' hreg
        rw [Machine.after_self] at hreg
        rcases hreg with hreg | hreg <;> simp at hreg
      · intro size' hreg
        rw [Machine.after_self] at hreg
        obtain ⟨-, rfl, -⟩ := ThreadPc.unlock.inj hreg
        exact length_writes.trans (congrArg (· + 1) hlength)

omit haccess hperforms in
/-- The thread leaves the critical section, and leaves the size of the registry in the mutex. -/
theorem Guarded.unlock (h : Guarded m pages) (hlocks : (m.thread t).pc.Locks pages) {size : ℕ}
    (hlength : (m.memory.history (.count pages)).length = size + 1)
    (hnext : ¬ next.pc.Locks pages) :
    Guarded (m.after t (m.memory.writes (.thread t) .release (.mutex pages) (size + 1) ⊥) next)
      pages := by
  apply Guarded.of_open
  · exact h.counts.congr (Memory.writes_history_of_ne (by simp))
  · exact after_all (P := fun _ thread => ¬ thread.pc.Locks pages) hnext
      fun t' hne hl => hne (h.alone t' t hl hlocks)
  · intro n hn
    rw [Machine.after_memory, last_writes, Option.some.injEq] at hn
    obtain rfl := Nat.succ.inj hn
    exact (congrArg List.length (Memory.writes_history_of_ne (by simp))).trans hlength

theorem guarded_thread (h : Guarded m pages) : Guarded (m.after t memory next) pages := by
  have hgoes := goes_of_performs haccess hperforms
  by_cases hacquires : (m.thread t).pc.Acquires pages
  · cases hpc : (m.thread t).pc with
    | lock pages' =>
        rw [hpc] at hacquires
        obtain rfl := hacquires.elim ThreadPc.lock.inj False.elim
        exact guarded_lock haccess hperforms h hpc
    | register pages' size =>
        rw [hpc] at hacquires
        obtain rfl : pages' = pages := hacquires.elim (fun heq => by contradiction) id
        exact guarded_register haccess hperforms h hpc
    | unlock pages' size registered =>
        rw [hpc] at hacquires
        obtain rfl : pages' = pages := hacquires.elim (fun heq => by contradiction) id
        have hlocks : (m.thread t).pc.Locks pages' := by
          rw [hpc]
          rfl
        cases registered with
        | false =>
            have hlength := h.registering t size (.inr hpc)
            simp only [ThreadState.access, hpc, Option.some.injEq] at haccess
            subst haccess
            cases hperforms with
            | write => exact h.unlock hlocks hlength id
        | true =>
            have hlength := h.registered t size hpc
            simp only [ThreadState.access, hpc, Option.some.injEq] at haccess
            subst haccess
            cases hperforms with
            | write => exact h.unlock hlocks hlength id
    | _ => rcases hacquires with h' | h' <;> rw [hpc] at h' <;> contradiction
  · refine h.keep ?_ ?_ (after_all (P := fun t' thread => thread.pc.Locks pages →
      thread.pc = (m.thread t').pc) (fun hl => ?_) fun t' _ _ => rfl)
    · exact history_of_writes haccess hperforms fun hw => hacquires (acquires_of_writes (.inl hw))
    · exact history_of_writes haccess hperforms fun hw => hacquires (acquires_of_writes (.inr hw))
    · exact absurd (hgoes.acquires (.inr hl)) hacquires

/-- A record is published. -/
theorem owned_produce (h : Owned m pages) {index : ℕ}
    (hpc : (m.thread t).pc = .produce pages index) : Owned (m.after t memory next) pages := by
  have htls := h.producing t index hpc
  obtain ⟨hlength, hlt⟩ := h.owned t index htls
  have hview := fun t' (hne : t' ≠ t) =>
    hperforms.view_of_ne (q := .thread t') (by simpa using hne)
  have hmono := hperforms.view_le (.thread t) (.count pages)
  simp only [ThreadState.access, hpc, Option.some.injEq] at haccess
  subst haccess
  cases hperforms with
  | write =>
      apply h.after hview
      · intro i
        apply (h.tails i).writes
        intro heq
        obtain ⟨-, rfl⟩ := Loc.tail.inj heq
        exact hlength.symm
      · rintro (hacq | hacq) <;> contradiction
      · intro hnone
        rw [htls] at hnone
        contradiction
      · intro i hproduce
        contradiction
      · simp
      · intro i hi
        obtain rfl := Option.some.inj (htls.symm.trans hi)
        refine ⟨length_writes.trans ?_, hlt.trans_le hmono⟩
        rw [hlength]
        simp
      · exact fun _ => id
      · exact fun t' hne i hi hi' => hne (h.unique t' t i hi' hi)
      · intro i hnot
        have hne : i ≠ index := fun heq => hnot (heq ▸ htls)
        rw [Memory.writes_history_of_ne (by simpa using hne)]
      · exact fun t' _ size hreg => (h.registered t' size hreg).2 t

/-- A registered producer gets its owner. -/
theorem owned_unlock (h : Owned m pages) (hguarded : Guarded m pages) {size : ℕ}
    (hpc : (m.thread t).pc = .unlock pages size true) :
    Owned (m.after t memory next) pages := by
  have hlocks : (m.thread t).pc.Locks pages := by
    rw [hpc]
    rfl
  have hnone := h.acquiring t (.inr hlocks)
  obtain ⟨hlt, hfree⟩ := h.registered t size hpc
  have hview := fun t' (hne : t' ≠ t) =>
    hperforms.view_of_ne (q := .thread t') (by simpa using hne)
  have hmono := hperforms.view_le (.thread t) (.count pages)
  have hsame : ∀ i, memory.history (.tail pages i) = m.memory.history (.tail pages i) :=
    fun i => history_of_writes haccess hperforms (by simp [hpc, ThreadPc.Writes])
  simp only [ThreadState.access, hpc, Option.some.injEq] at haccess
  subst haccess
  cases hperforms with
  | write =>
      apply h.after hview
      · exact fun i => (h.tails i).congr (hsame i)
      · rintro (hacq | hacq) <;> contradiction
      · intro hnone'
        simp at hnone'
      · intro i hproduce
        obtain ⟨-, rfl⟩ := ThreadPc.produce.inj hproduce
        exact Function.update_self ..
      · simp
      · intro i hi
        obtain rfl : size = i := by simpa using hi
        rw [hsame size, h.fresh size hfree, h.empty t hnone]
        exact ⟨rfl, hlt.trans_le hmono⟩
      · intro i hi
        rw [hnone] at hi
        contradiction
      · intro t' _ i hi
        obtain rfl : size = i := by simpa using hi
        exact hfree t'
      · exact fun i _ => congrArg List.length (hsame i)
      · -- nobody else is in the critical section
        intro t' hne size' hreg
        refine absurd (hguarded.alone t' t ?_ hlocks) hne
        rw [hreg]
        rfl

theorem owned_thread (h : Owned m pages) (hguarded : Guarded m pages) (hs : m.memory.Sound) :
    Owned (m.after t memory next) pages := by
  have hgoes := goes_of_performs haccess hperforms
  obtain ⟨htls, htail⟩ := hgoes.locals
  by_cases hproduce : ∃ index, (m.thread t).pc = .produce pages index
  · obtain ⟨index, hpc⟩ := hproduce
    exact owned_produce haccess hperforms h hpc
  by_cases hunlock : ∃ size, (m.thread t).pc = .unlock pages size true
  · obtain ⟨size, hpc⟩ := hunlock
    exact owned_unlock haccess hperforms h hguarded hpc
  refine h.keep (fun i => ?_) (fun p => hperforms.view_le p)
    (after_all (P := fun t' thread => thread.tls pages = (m.thread t').tls pages) ?_ fun _ _ => rfl)
    (after_all (P := fun t' thread => thread.tail pages = (m.thread t').tail pages) ?_
      fun _ _ => rfl)
    (after_all (P := fun t' thread => thread.pc.Acquires pages → (m.thread t').tls pages = none)
      (fun hacq => h.acquiring t (hgoes.acquires hacq)) fun t' _ => h.acquiring t')
    (after_all (P := fun t' thread => ∀ i, thread.pc = .produce pages i →
      (m.thread t').tls pages = some i) (fun i hpc => ?_) fun t' _ => h.producing t')
    (after_all (P := fun t' thread => ∀ size, thread.pc = .unlock pages size true →
      size < memory.view (.thread t') (.count pages) ∧
        ∀ t'', (m.thread t'').tls pages ≠ some size) (fun size hpc => ?_) fun t' hne size hpc => ?_)
  · refine history_of_writes haccess hperforms fun hw => ?_
    cases hpc : (m.thread t).pc with
    | produce pages' index =>
        rw [hpc] at hw
        obtain ⟨rfl, rfl⟩ := Loc.tail.inj hw
        exact hproduce ⟨i, hpc⟩
    | idle | waitFlush => rwa [hpc] at hw
    | _ =>
        rw [hpc] at hw
        contradiction
  · rcases htls with heq | ⟨pages', size, hpc, heq⟩
    · rw [heq]
    · rw [heq, Function.update_of_ne]
      rintro rfl
      exact hunlock ⟨size, hpc⟩
  · rcases htail with heq | ⟨pages', index, hpc, heq⟩
    · rw [heq]
    · rw [heq, Function.update_of_ne]
      rintro rfl
      exact hproduce ⟨index, hpc⟩
  · cases hgoes with
    | own hunlocks =>
        obtain ⟨rfl, -⟩ := ThreadPc.produce.inj hpc
        exact absurd ⟨_, hunlocks⟩ hunlock
    | _ => contradiction
  · cases hgoes with
    | @register pages' size' hpc' =>
        obtain ⟨rfl, rfl, -⟩ := ThreadPc.unlock.inj hpc
        have hlength := hguarded.registering t size' (.inl hpc')
        constructor
        · simp only [ThreadState.access, hpc', Option.some.injEq] at haccess
          subst haccess
          cases hperforms with
          | write =>
              rw [Memory.writes_view_self, Pi.sup_apply, Pi.single_eq_same]
              omega
        · intro t'' ht''
          have hlt := (h.owned t'' size' ht'').2
          have hbound := hs.parties (.thread t'') (.count pages')
          omega
    | full => simp at hpc
    | _ => contradiction
  · rw [hperforms.view_of_ne (by simpa using hne)]
    exact h.registered t' size hpc

end Step

/-! ## The consumer goes on -/

theorem history_of_foreign {i : ℕ} {next : ConsumerState} {l : Loc}
    (hperforms : m.memory.Performs .consumer i m.consumer.access memory next)
    (hl : l.foreign = true) : memory.history l = m.memory.history l :=
  hperforms.history_of_ne fun hw => by
    rw [foreign_of_consumer hw] at hl
    contradiction

theorem entry_acquires {thread : ThreadState} {call : Call}
    (h : (call.entry thread).Acquires pages) : thread.tls pages = none := by
  cases call with
  | flush => rcases h with h | h <;> contradiction
  | log pages' =>
      simp only [Call.entry] at h
      split at h
      · rename_i hnone
        obtain rfl := h.elim ThreadPc.lock.inj False.elim
        exact hnone
      · rcases h with h | h <;> contradiction

theorem entry_locks {thread : ThreadState} {call : Call} :
    ¬ (call.entry thread).Locks pages := by
  intro h
  cases call with
  | flush => contradiction
  | log pages' =>
      simp only [Call.entry] at h
      split at h <;> contradiction

theorem entry_produce {thread : ThreadState} {call : Call} {i : ℕ}
    (h : call.entry thread = .produce pages i) : thread.tls pages = some i := by
  cases call with
  | flush => contradiction
  | log pages' =>
      simp only [Call.entry] at h
      split at h
      · contradiction
      · rename_i index hsome
        obtain ⟨rfl, rfl⟩ := ThreadPc.produce.inj h
        exact hsome

theorem registrySound_initial : RegistrySound .initial := by
  have hnumbered : ∀ l, (∀ pages, l ≠ .mutex pages) → Numbered Machine.initial.memory l := by
    intro l hl i message h
    have hlt := (List.getElem?_eq_some_iff.mp h).1
    cases l with
    | mutex pages => exact absurd rfl (hl pages)
    | _ =>
        obtain rfl : i = 0 := by simpa [Machine.initial] using hlt
        obtain rfl := Option.some.inj h
        rfl
  intro pages
  refine ⟨.of_open (hnumbered _ (by simp)) (fun t hl => ?_) fun n hn => ?_, ?_⟩
  · contradiction
  · obtain rfl : n = 0 := by simpa [Machine.initial, last?, eq_comm] using hn
    rfl
  · exact
      { tails := fun i => hnumbered _ (by simp)
        acquiring := fun t _ => rfl
        empty := fun t _ => rfl
        owned := fun t i h => by contradiction
        fresh := fun i _ => rfl
        unique := fun t t' i h => by contradiction
        producing := fun t i h => by contradiction
        registered := fun t size h => by contradiction }

theorem registrySound_of_reachable (h : (orders maxProducers).Reachable m) : RegistrySound m := by
  refine h.invariant ?_ fun m a m' hm hr hstep pages => ?_
  · rintro m rfl
    exact registrySound_initial
  · obtain ⟨hguarded, howned⟩ := hr pages
    cases step_kind hstep with
    | @call t call hidle =>
        refine ⟨hguarded.keep rfl rfl (after_all (P := fun t' thread => thread.pc.Locks pages →
          thread.pc = (m.thread t').pc) (fun hl => absurd hl entry_locks) fun _ _ _ => rfl), ?_⟩
        refine howned.keep (fun _ => rfl) (fun _ => le_rfl)
          (after_all (P := fun t' thread => thread.tls pages = (m.thread t').tls pages) rfl
            fun _ _ => rfl)
          (after_all (P := fun t' thread => thread.tail pages = (m.thread t').tail pages) rfl
            fun _ _ => rfl)
          (after_all (P := fun t' thread => thread.pc.Acquires pages →
            (m.thread t').tls pages = none) entry_acquires fun t' _ => howned.acquiring t')
          (after_all (P := fun t' thread => ∀ i, thread.pc = .produce pages i →
            (m.thread t').tls pages = some i) (fun i => entry_produce)
              fun t' _ => howned.producing t')
          (after_all (P := fun t' thread => ∀ size, thread.pc = .unlock pages size true →
            size < m.memory.view (.thread t') (.count pages) ∧
              ∀ t'', (m.thread t'').tls pages ≠ some size) (fun size hpc => ?_)
              fun t' _ => howned.registered t')
        have hlocks : ThreadPc.Locks pages (call.entry (m.thread t)) := by
          rw [show call.entry (m.thread t) = .unlock pages size true from hpc]
          rfl
        exact absurd hlocks entry_locks
    | thread haccess hperforms =>
        exact ⟨guarded_thread haccess hperforms hguarded,
          owned_thread haccess hperforms howned hguarded (sound_of_reachable hm)⟩
    | consumer hperforms =>
        refine ⟨hguarded.keep (history_of_foreign hperforms rfl) (history_of_foreign hperforms rfl)
          fun _ _ => rfl, ?_⟩
        refine howned.keep (fun i => history_of_foreign hperforms rfl)
          (fun p => hperforms.view_le p) (fun _ => rfl) (fun _ => rfl) howned.acquiring
          howned.producing fun t size hreg => ?_
        rw [hperforms.view_of_ne (by simp)]
        exact howned.registered t size hreg

/-! ## Who knows of a record knows of its producer -/

/-- A view with a record has the registration of its producer. -/
def Closed (V : View Loc) : Prop :=
  ∀ pages i, 0 < V (.tail pages i) → i < V (.count pages)

theorem Closed.sup {V W : View Loc} (hV : Closed V) (hW : Closed W) : Closed (V ⊔ W) := by
  intro pages i h
  rcases lt_sup_iff.mp h with h | h
  · exact lt_sup_of_lt_left (hV pages i h)
  · exact lt_sup_of_lt_right (hW pages i h)

theorem Closed.bot : Closed ⊥ := fun _ _ h => absurd h (Nat.lt_irrefl 0)

theorem closed_single {l : Loc} {n : ℕ} (hl : ∀ pages i, l ≠ .tail pages i) :
    Closed (Pi.single l n) := by
  intro pages i h
  rw [Pi.single_eq_of_ne (hl pages i).symm] at h
  exact absurd h (Nat.lt_irrefl 0)

/-- Reads acquire, and a tail is written with release by who knows of the registration. -/
def Fits {Program : Type} (view : View Loc) : Access Loc ℕ Program → Prop
  | .skip _ => True
  | .read o _ _ => o.acquires = true
  | .write o l _ _ =>
    ∀ pages i, l = .tail pages i → o.releases = true ∧ i < view (.count pages)
  | .update _ l _ _ => ∀ pages i, l ≠ .tail pages i

theorem fits_thread {access : Access Loc ℕ ThreadState} (h : RegistrySound m)
    (haccess : (m.thread t).access maxProducers = some access) :
    Fits (m.memory.view (.thread t)) access := by
  cases hpc : (m.thread t).pc with
  | idle => simp [ThreadState.access, hpc] at haccess
  | produce pages index =>
      simp only [ThreadState.access, hpc, Option.some.injEq] at haccess
      subst haccess
      intro pages' i heq
      obtain ⟨rfl, rfl⟩ := Loc.tail.inj heq
      have howned := (h pages).2
      exact ⟨rfl, (howned.owned t index (howned.producing t index hpc)).2⟩
  | unlock pages size registered =>
      cases registered <;>
        (simp only [ThreadState.access, hpc, Option.some.injEq] at haccess
         subst haccess
         simp [Fits])
  | _ =>
      simp only [ThreadState.access, hpc, Option.some.injEq] at haccess
      subst haccess
      simp [Fits, Order.acquires]

theorem fits_consumer (consumer : ConsumerState) (view : View Loc) :
    Fits view consumer.access := by
  unfold ConsumerState.access
  split <;> simp [Fits, Order.acquires]

theorem closed_performs {Program : Type} {p : Party} {i : ℕ} {access : Access Loc ℕ Program}
    {next : Program} (h : memory.Every Closed) (hs : memory.Sound)
    (hfits : Fits (memory.view p) access) {memory' : Memory Party Loc ℕ}
    (hperforms : memory.Performs p i access memory' next) : memory'.Every Closed := by
  have hsup : ∀ V W, Closed V → Closed W → Closed (V ⊔ W) := fun _ _ hV hW => hV.sup hW
  cases hperforms with
  | skip => exact h
  | read hle hmessage =>
      refine h.reads hsup hs hmessage fun ho => ?_
      rw [show _ = true from hfits] at ho
      contradiction
  | @write o l value =>
      by_cases hl : ∃ pages i, l = .tail pages i
      · obtain ⟨pages, index, rfl⟩ := hl
        obtain ⟨ho, hlt⟩ := hfits pages index rfl
        refine h.writes hsup Closed.bot (fun pages' i' hpos => ?_) fun hrelaxed => ?_
        · by_cases heq : Loc.tail pages' i' = .tail pages index
          · obtain ⟨rfl, rfl⟩ := Loc.tail.inj heq
            exact lt_sup_of_lt_left hlt
          · rw [Pi.sup_apply, Pi.single_eq_of_ne heq] at hpos
            refine lt_sup_of_lt_left (h.parties p pages' i' ?_)
            exact (lt_sup_iff.mp hpos).resolve_right (Nat.lt_irrefl 0)
        · rw [ho] at hrelaxed
          contradiction
      · have hsingle : ∀ n, Closed (Pi.single l n) := fun n =>
          closed_single fun pages i heq => hl ⟨pages, i, heq⟩
        exact h.writes hsup Closed.bot ((h.parties p).sup (hsingle _)) fun _ => hsingle _
  | @update o l f next message value hlast hvalue =>
      have hmessage := Memory.getElem?_of_last hlast
      have hsingle : ∀ n, Closed (Pi.single l n) := fun n => closed_single hfits
      have hreads := h.reads (p := p) (o := o) hsup hs hmessage fun _ =>
        (h.parties p).sup (hsingle _)
      exact hreads.writes hsup (h.messages _ _ _ hmessage) ((hreads.parties p).sup (hsingle _))
        fun _ => hsingle _

theorem closed_of_reachable (h : (orders maxProducers).Reachable m) : m.memory.Every Closed := by
  refine h.invariant (I := fun m => m.memory.Every Closed) ?_ fun m a m' hm hc hstep => ?_
  · rintro m rfl
    refine { parties := fun _ => Closed.bot, messages := fun l i message hmessage => ?_ }
    rw [(initial_message hmessage).2]
    exact Closed.bot
  · have hs := sound_of_reachable hm
    cases step_kind hstep with
    | call => exact hc
    | thread haccess hperforms =>
        exact closed_performs hc hs (fits_thread (registrySound_of_reachable hm) haccess) hperforms
    | consumer hperforms => exact closed_performs hc hs (fits_consumer _ _) hperforms

end Unlog.Orders
