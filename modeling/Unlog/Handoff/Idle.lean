import Unlog.Handoff.Budget

/-! # drain_until_idle

The drain that goes on until a pass finds nothing is watched together with what is published
meanwhile: how many passes it takes, why a pass is not the last one, and what it consumes. -/

namespace Unlog.Handoff

open Library

/-! ## The watch -/

/-- The producer whose queue a thread appends to with a step. -/
def publishes (conf : Sealed) (s : State) : Action → Option ProducerId
  | .produce t outcome =>
    match s.pc t with
    | .produce _ p =>
      if conf.capacity p.pages ≤ (s.producer p).queue.tail - (s.producer p).queue.head then none
      else if outcome = .written ∨ outcome = .truncated then some p
      else none
    | _ => none
  | _ => none

/-- The producer whose tail `consume_all` reads with a step. -/
def readsTail (s : State) : Action → Option ProducerId
  | .consumer =>
    match s.consumer with
    | .visit _ _ p .readTail => some p
    | _ => none
  | _ => none

/-- `drain_ready` has returned false and is called again. -/
def restarts (s : State) (a : Action) : Bool :=
  a == .consumer && s.consumer == .pass (.final false) .done

/-- No pass is under way. -/
def ConsumerPc.between : ConsumerPc → Bool
  | .pass _ _ | .visit _ _ _ _ => false
  | _ => true

/-- The hand-off and a call of `drain_until_idle`: the passes begun, the records published before
the present pass and in all, the accesses of the consumer, the queues whose tail the pass has read,
whether one of them got a record since, the records whose log call had returned when the pass began,
where the queues stood at the call, and what was consumed. -/
structure Idle where
  state : State
  passes : ℕ := 1
  base : ℕ := 0
  published : ℕ := 0
  steps : ℕ := 0
  reads : List ProducerId := []
  fresh : Bool := false
  before : List RecordId
  first : ProducerId → ℕ
  consumed : List RecordId := []

def Idle.start (s : State) : Idle where
  state := { s with consumer := .pass (.final true) Cursor.first }
  before := s.returned
  first p := (s.producer p).queue.head

def Idle.next (conf : Sealed) (w : Idle) (a : Action) (s' : State) : Idle :=
  if w.state.consumer.idling = false then { w with state := s' }
  else if restarts w.state a = true then
    { w with
      state := s'
      passes := w.passes + 1
      base := w.published
      steps := w.steps + 1
      reads := []
      fresh := false
      before := w.state.returned }
  else
    { w with
      state := s'
      published := w.published + (publishes conf w.state a).toList.length
      steps := w.steps + if a = .consumer then 1 else 0
      reads := (readsTail w.state a).toList ++ w.reads
      fresh := w.fresh || (publishes conf w.state a).any fun p => decide (p ∈ w.reads)
      consumed := w.consumed ++ (takesOff w.state a).toList }

/-- The hand-off with a call of `drain_until_idle` in any reachable state between two passes. -/
def untilIdle (conf : Sealed) : System Idle Action where
  Initial w := ∃ s, (handoff conf).Reachable s ∧ s.consumer.between = true ∧ w = Idle.start s
  step w a := (step conf w.state a).map (w.next conf a)

/-- The result of the pass so far is false. -/
def ConsumerPc.failed : ConsumerPc → Bool
  | .pass round _ => round == .final false
  | .visit round _ _ _ => round == .final false
  | _ => false

/-- Every pass but one costs a publication, a pass is bounded, and queues are emptied in order. -/
structure IdleBounds (conf : Sealed) (w : Idle) : Prop where
  passes : w.passes ≤ w.published + 1
  explained : w.state.consumer.failed = true → w.fresh = true
  steps : w.steps ≤ (w.published + 1) * conf.passSteps
  running : w.state.consumer.idling = true → (step conf w.state .consumer).isSome = true
  ordered : ∀ p, w.consumed.filter (fun r => r.producer = p) =
    (List.range' (w.first p) ((w.state.producer p).queue.head - w.first p)).map (RecordId.mk p)

/-- What `drain_until_idle` promises: it returns, and what was logged before its last pass is
consumed. -/
structure IdleContract (conf : Sealed) (w : Idle) : Prop extends IdleBounds conf w where
  complete : w.state.consumer.idling = false → ∀ r ∈ w.before, Taken w.state r

/-- A pass that has found no producer undrained so far takes a word while the ready bit of a producer
in it is still to come from a thread that won the mark, and a record of that producer whose log call
had returned before the pass was not taken. -/
def Idle.Overlooks (w : Idle) : Prop :=
  ∃ pages words i t record r,
    w.state.consumer = .pass (.final true) (.word pages words (i / 64)) ∧ i / 64 < words ∧
    ¬ ReadyBit w.state pages i ∧ w.state.pc t = .publishBit record ∧
    record.producer = .pooled pages i ∧
    r ∈ w.before ∧ r.producer = .pooled pages i ∧ ¬ Taken w.state r

/-- The consumer does not overlook a producer with this step. -/
def Idle.Attentive (w : Idle) (a : Action) : Prop := a = .consumer → ¬ w.Overlooks

variable {conf : Sealed} {s s' : State} {t : ℕ} {p : ProducerId} {a : Action} {w w' : Idle}

/-! ## What a step does to the queues -/

/-- Only a publication moves a tail. -/
theorem tail_step (hstep : step conf s a = some s') (p : ProducerId) :
    (s'.producer p).queue.tail =
      (s.producer p).queue.tail + if publishes conf s a = some p then 1 else 0 := by
  cases a with
  | call t call =>
      simp only [step] at hstep
      split at hstep
      · obtain rfl := Option.some.inj hstep
        simp [publishes]
      · contradiction
  | thread t =>
      rcases (threadStep_cases hstep).queue p with hqueue | ⟨channel, truncated, hpc, -, -⟩
      · simp [hqueue, publishes]
      · simp only [step, threadStep, hpc] at hstep
        contradiction
  | consumer =>
      have hqueue := (consumerStep_cases hstep).published p
      simp [Queue.tail, hqueue, publishes]
  | produce t outcome =>
      simp only [step] at hstep
      split at hstep
      case h_2 => contradiction
      case h_1 channel q hpc =>
        obtain rfl := Option.some.inj hstep
        simp only [produceStep, publishes, hpc]
        split
        · simp
        · by_cases hq : p = q
          · subst hq
            cases outcome <;> simp [Queue.tail]
          · cases outcome <;> simp [State.setProducer_producer_of_ne _ hq, Ne.symm hq]

/-- There is room for what is published. -/
theorem room_of_publishes (h : publishes conf s a = some p) :
    (s.producer p).queue.tail - (s.producer p).queue.head < conf.capacity p.pages := by
  cases a with
  | produce t outcome =>
      simp only [publishes] at h
      split at h
      · rename_i channel q hpc
        split at h
        · contradiction
        · rename_i hroom
          split at h
          · obtain rfl := Option.some.inj h
            exact Nat.lt_of_not_le hroom
          · contradiction
      · contradiction
  | _ => contradiction

/-- Only the consumer moves a head, past the record it takes. -/
theorem head_step (hstep : step conf s a = some s') (p : ProducerId) :
    (s'.producer p).queue.head = (s.producer p).queue.head +
      if takesOff s a = some ⟨p, (s.producer p).queue.head⟩ then 1 else 0 := by
  have hthread : a ≠ .consumer → takesOff s a = none := by
    intro ha
    cases a <;> first | rfl | contradiction
  rcases step_cases_consumer hstep with ⟨t, h⟩ | ⟨rfl, h⟩
  · by_cases ha : a = .consumer
    · subst ha
      rcases (consumerStep_cases hstep).takesOff with
        ⟨q, record, stage, -, -, -, hqueue, -⟩ | ⟨hnone, -⟩
      · have hhead := h.head_eq q
        rw [hqueue] at hhead
        simp at hhead
      · simp [h.head_eq, hnone]
    · simp [h.head_eq, hthread ha]
  · rcases h.takesOff with ⟨q, record, stage, -, hsome, -, hqueue, hother⟩ | ⟨hnone, hsame⟩
    · by_cases hq : p = q
      · subst hq
        simp [hsome, hqueue]
      · simp [hsome, hother p hq, Ne.symm hq]
    · simp [hnone, hsame]

/-! ## The hand-off under the watch -/

/-- The invariants of the hand-off that do not tell where a run began. -/
structure DrainBase (conf : Sealed) (s : State) : Prop where
  ownership : Ownership conf s
  makings : Makings conf s
  tickets : TicketSound s
  pass : PassSound s
  ledger : Ledger s
  cells : ∀ p, (cell s p).Inv
  range : ∀ pages i, ReadyBit s pages i → i < (s.registry pages).count
  fits : Fits conf s
  ready : PassReady s

theorem fits_step (h : Fits conf s) (hstep : step conf s a = some s') : Fits conf s' := by
  intro p
  have hold := h p
  have hhead := head_step hstep p
  rw [tail_step hstep p]
  split
  · rename_i hpublishes
    have hroom := room_of_publishes hpublishes
    omega
  · omega

/-- A bit is taken with a word that has it set. -/
theorem ConsumerStep.due_of (hstep : ConsumerStep conf s s') {pages : Pages} {i : ℕ}
    (h : s'.consumer.due (.pooled pages i) = true) :
    s.consumer.due (.pooled pages i) = true ∨ ReadyBit s pages i := by
  cases hstep with
  | takeWord hc =>
      simp only [ConsumerPc.due, Cursor.due, Bool.and_eq_true, beq_iff_eq] at h
      obtain ⟨⟨rfl, rfl⟩, hbit⟩ := h
      exact .inr hbit
  | bitVisit hc hzero hslot =>
      rw [ConsumerPc.due, due_bits_next hzero, Bool.and_eq_true] at h
      rw [hc]
      exact .inl h.1
  | consume => exact .inl h
  | passDone hc =>
      rename_i round
      cases round with
      | final allDrained => cases allDrained <;> contradiction
      | _ => contradiction
  | secondEmpty hc =>
      rename_i p _
      rw [hc]
      cases p <;> exact .inl h
  | singleVisit hc | singleSkip hc =>
      rw [ConsumerPc.due, due_afterSingle] at h
      contradiction
  | wordsDone hc | slotsDone hc =>
      rw [ConsumerPc.due, due_afterRegistry] at h
      contradiction
  | readTail hc | consumed hc | firstEmpty hc | firstFilled hc | clearEnqueued hc
  | secondFilled hc | remarkWon hc | isRetired hc | markFree hc | repost hc | remarkLost hc
  | notRetired hc | pushFree hc =>
      rw [hc]
      exact .inl h
  | _ => contradiction

theorem ConsumerStep.snapshot (hstep : ConsumerStep conf s s')
    (h : ∀ round resume p tail, s.consumer = .visit round resume p (.consume tail) →
      tail ≤ (s.producer p).queue.tail)
    {round : Round} {resume : Cursor} {p : ProducerId} {tail : ℕ}
    (hc' : s'.consumer = .visit round resume p (.consume tail)) :
    tail ≤ (s'.producer p).queue.tail := by
  rw [Queue.tail, hstep.published p]
  cases hstep with
  | readTail hc =>
      obtain ⟨-, -, rfl, htail⟩ := ConsumerPc.visit.inj hc'
      exact Nat.le_of_eq (Stage.consume.inj htail).symm
  | consume hc => exact h round resume p tail hc'
  | passDone hc =>
      rename_i round'
      cases round' with
      | final allDrained => cases allDrained <;> contradiction
      | _ => contradiction
  | secondEmpty hc =>
      rename_i q _
      cases q <;> cases hc'
  | _ => cases hc'

theorem drainBase_step (h : DrainBase conf s) (hstep : step conf s a = some s') :
    DrainBase conf s' where
  ownership := ownership_step h.ownership hstep
  makings := makings_step h.ownership h.makings hstep
  tickets := ticketSound_step h.tickets hstep
  pass := passSound_step h.ownership h.pass hstep
  ledger := ledger_step h.ledger hstep
  cells p := cellInv_step h.ownership h.makings h.tickets h.pass (h.cells p) hstep
  range pages i := readyBit_lt h.ownership h.makings hstep (h.range pages)
  fits := fits_step h.fits hstep
  ready := by
    have hcount := count_le h.ownership hstep
    refine ⟨fun pages i hdue => ?_, fun round resume p tail hc => ?_⟩
    · refine Nat.lt_of_lt_of_le ?_ (hcount pages)
      rcases step_cases hstep with ⟨t, hthread⟩ | hconsumer
      · exact h.ready.due pages i (hthread.consumer_eq ▸ hdue)
      · exact (hconsumer.due_of hdue).elim (h.ready.due pages i) (h.range pages i)
    · rcases step_cases hstep with ⟨t, hthread⟩ | hconsumer
      · have hold := h.ready.snapshot round resume p tail (hthread.consumer_eq ▸ hc)
        have htail := tail_step hstep p
        omega
      · exact hconsumer.snapshot h.ready.snapshot hc

theorem fits_of_reachable (h : (handoff conf).Reachable s) : Fits conf s := by
  refine h.invariant ?_ fun s a s' _ hf hstep => fits_step hf hstep
  rintro _ ⟨level, rfl⟩
  exact fun _ => Nat.zero_le _

/-- A call of `drain_until_idle` finds the hand-off in order. -/
theorem drainBase_start (h : (handoff conf).Reachable s) (hbetween : s.consumer.between = true) :
    DrainBase conf (Idle.start s).state := by
  have hown := ownership_of_reachable h
  have hmakings := makings_of_reachable h
  have hledger := ledger_of_reachable h
  have hnotPushing : ∀ pages i, ¬ Pushing s pages i := by
    rintro pages i ⟨round, resume, hc⟩
    rw [hc] at hbetween
    contradiction
  exact
    { ownership :=
        { registry := fun pages => by
            obtain ⟨layout, holding, -, -, list, hlist⟩ := hown.registry pages
            exact
              { layout := ⟨layout.size_eq, layout.le_max, layout.slots_eq, layout.binding⟩
                holding := ⟨holding.fresh, holding.held, holding.unique, holding.owned⟩
                freeing := ⟨nofun, nofun, list, hlist.chain, hlist.nodup, hlist.sound,
                  fun i hi => .inl ((hlist.complete i hi).resolve_right (hnotPushing pages i)),
                  nofun⟩ }
          pc := fun t => ⟨(hown.pc t).holds, (hown.pc t).owns, (hown.pc t).acquiring,
            (hown.pc t).publishing⟩
          leaving := nofun }
      makings :=
        { plain := hmakings.plain
          working := hmakings.working
          visiting := nofun
          untouched := fun p hnot =>
            hmakings.untouched p fun hmade => hnot (by cases p <;> exact hmade) }
      tickets := nofun
      pass := ⟨trivial, trivial⟩
      ledger := ⟨hledger.returned, hledger.pending, hledger.unique, hledger.accepted,
        hledger.before⟩
      cells := fun p => by
        have haway : s.consumer.facing p = .away := by
          cases hc : s.consumer with
          | pass | visit =>
              rw [hc] at hbetween
              contradiction
          | _ => rfl
        refine (cellInv_of_reachable h p).steps (.single (Cell.Rises.step ?_))
        refine ⟨rfl, rfl, rfl, rfl, rfl, haway.symm, fun hsignal => ?_⟩
        cases p with
        | single pages => exact alert_of_no_ticket rfl
        | pooled pages index => exact hsignal
      range := (readySound_of_reachable h).range
      fits := fun p => fits_of_reachable h p
      ready := ⟨nofun, nofun⟩ }

/-! ## Why a pass fails -/

/-- A look at the queue finds it filled only if a record came after its tail was read. -/
def Stage.Explained (queue : Queue) (fresh : Bool) : Stage → Prop
  | .consume tail => tail < queue.tail → fresh = true
  | .firstEmpty | .clearEnqueued | .secondEmpty => queue.empty = false → fresh = true
  | .publishReady | .remark | .publishRemark => fresh = true
  | _ => True

/-- The pass has failed, or is about to fail, only because of a record that came to a queue whose
tail was read. -/
def State.Explained (s : State) (reads : List ProducerId) (fresh : Bool) : Prop :=
  match s.consumer with
  | .pass round _ => round = .final false → fresh = true
  | .visit round _ p stage =>
    (round = .final false → fresh = true) ∧ (stage = .readTail ∨ p ∈ reads) ∧
      stage.Explained (s.producer p).queue fresh
  | _ => True

theorem Stage.Explained.of_fresh {stage : Stage} {queue : Queue} : stage.Explained queue true := by
  cases stage <;> simp [Stage.Explained]

theorem explained_of_fresh {reads : List ProducerId} (hvisit : ∀ round resume p stage,
    s.consumer = .visit round resume p stage → stage = .readTail ∨ p ∈ reads) :
    s.Explained reads true := by
  unfold State.Explained
  split
  · exact fun _ => rfl
  · rename_i round resume p stage hc
    exact ⟨fun _ => rfl, hvisit round resume p stage hc, .of_fresh⟩
  · trivial

theorem State.Explained.visit {reads : List ProducerId} {fresh : Bool} (h : s.Explained reads fresh)
    {round : Round} {resume : Cursor} {stage : Stage}
    (hc : s.consumer = .visit round resume p stage) :
    (round = .final false → fresh = true) ∧ (stage = .readTail ∨ p ∈ reads) ∧
      stage.Explained (s.producer p).queue fresh := by
  rw [State.Explained, hc] at h
  exact h

theorem State.Explained.pass {reads : List ProducerId} {fresh : Bool} (h : s.Explained reads fresh)
    {round : Round} {cursor : Cursor} (hc : s.consumer = .pass round cursor) :
    round = .final false → fresh = true := by
  rw [State.Explained, hc] at h
  exact h

/-- Only a record for a queue whose tail was read could make a difference. -/
theorem State.Explained.thread {reads : List ProducerId} {fresh : Bool}
    (h : s.Explained reads fresh) (hstep : step conf s a = some s')
    (hthread : ThreadStep conf s t s') :
    s'.Explained reads
      (fresh || (publishes conf s a).any fun p => decide (p ∈ reads)) := by
  have hconsumer := hthread.consumer_eq
  cases hnew : (publishes conf s a).any fun p => decide (p ∈ reads) with
  | true =>
      rw [Bool.or_true]
      refine explained_of_fresh fun round resume p stage hc => ?_
      exact (h.visit (hconsumer ▸ hc)).2.1
  | false =>
      rw [Bool.or_false]
      cases hc : s.consumer with
      | visit round resume p stage =>
          obtain ⟨hround, hreads, hstage⟩ := h.visit hc
          rw [State.Explained, hconsumer, hc]
          refine ⟨hround, hreads, ?_⟩
          rcases hreads with rfl | hreads
          · trivial
          · have hnot : publishes conf s a ≠ some p := by
              intro hsome
              simp [hsome, hreads] at hnew
            have htail := tail_step hstep p
            rw [if_neg hnot, Nat.add_zero] at htail
            have hhead := hthread.head_eq p
            cases stage <;> simp_all [Stage.Explained, Queue.empty]
      | pass round cursor =>
          rw [State.Explained, hconsumer, hc]
          exact h.pass hc
      | _ =>
          rw [State.Explained, hconsumer, hc]
          trivial

theorem State.Explained.consumer {reads : List ProducerId} {fresh : Bool}
    (h : s.Explained reads fresh) (hordered : ∀ p, (cell s p).head ≤ (cell s p).tail)
    (hidling : s.consumer.idling = true) (hstep : ConsumerStep conf s s') :
    s'.Explained ((readsTail s .consumer).toList ++ reads) fresh := by
  -- a visit that is under way has read its tail
  have hread : ∀ {round resume p stage}, s.consumer = .visit round resume p stage →
      stage ≠ .readTail → p ∈ (readsTail s .consumer).toList ++ reads := by
    intro round resume p stage hc hstage
    exact List.mem_append_right _ ((h.visit hc).2.1.resolve_left hstage)
  cases hstep with
  | readTail hc =>
      rename_i round resume p
      refine ⟨(h.visit hc).1, .inr ?_, fun hlt => absurd hlt (Nat.lt_irrefl _)⟩
      simp [readsTail, hc]
  | consume hc hlt hrecord =>
      rename_i round resume p tail record
      obtain ⟨hround, -, hstage⟩ := h.visit hc
      simp only [State.Explained, State.setProducer_consumer, hc]
      refine ⟨hround, .inr (hread hc (by simp)), ?_⟩
      rw [State.setProducer_producer_self]
      exact hstage
  | consumed hc hle =>
      rename_i round resume p tail
      obtain ⟨hround, -, hstage⟩ := h.visit hc
      refine ⟨hround, .inr (hread hc (by simp)), fun hfilled => hstage ?_⟩
      have hle' : (s.producer p).queue.head ≤ (s.producer p).queue.tail := hordered p
      have hne : (s.producer p).queue.head ≠ (s.producer p).queue.tail := by
        simpa [Queue.empty] using hfilled
      omega
  | firstEmpty hc =>
      obtain ⟨hround, -, hstage⟩ := h.visit hc
      exact ⟨hround, .inr (hread hc (by simp)), hstage⟩
  | firstFilled hc hfilled | secondFilled hc hfilled =>
      obtain ⟨hround, -, hstage⟩ := h.visit hc
      exact ⟨hround, .inr (hread hc (by simp)), hstage hfilled⟩
  | clearEnqueued hc =>
      rename_i round resume p
      obtain ⟨hround, -, hstage⟩ := h.visit hc
      refine ⟨hround, .inr (hread hc (by simp)), ?_⟩
      change Stage.Explained ((s.setProducer p _).producer p).queue fresh _
      rw [State.setProducer_producer_self]
      exact hstage
  | secondEmpty hc =>
      rename_i round resume p _
      cases p with
      | single pages => exact (h.visit hc).1
      | pooled pages index => exact ⟨(h.visit hc).1, .inr (hread hc (by simp)), trivial⟩
  | remarkWon hc =>
      obtain ⟨hround, -, hstage⟩ := h.visit hc
      exact ⟨hround, .inr (hread hc (by simp)), hstage⟩
  | remarkLost hc => exact fun _ => (h.visit hc).2.2
  | repost hc hstage =>
      rcases hstage with rfl | rfl <;> exact fun _ => (h.visit hc).2.2
  | isRetired hc | markFree hc =>
      exact ⟨(h.visit hc).1, .inr (hread hc (by simp)), trivial⟩
  | notRetired hc | pushFree hc => exact (h.visit hc).1
  | singleVisit hc | bitVisit hc | slotVisit hc => exact ⟨h.pass hc, .inl rfl, trivial⟩
  | singleSkip hc | countFlush hc | countWords hc | takeWord hc | wordsDone hc | bitsDone hc
  | slotsDone hc => exact h.pass hc
  | passDone hc =>
      rename_i round
      rw [hc] at hidling
      cases round with
      | final allDrained =>
          cases allDrained with
          | true => trivial
          | false =>
              intro hfailed
              contradiction
      | _ => contradiction
  | sampleTicket hc | startFlush hc | noFlush hc | flushSinks hc | completeFlush hc | stop hc
  | sleep hc | again hc | awake hc | finalFlush hc =>
      rw [hc] at hidling
      contradiction

/-! ## Every run -/

/-- The books of a call of `drain_until_idle`. -/
structure IdleSound (conf : Sealed) (w : Idle) : Prop where
  base : DrainBase conf w.state
  phase : w.state.consumer.idling = true ∨ w.state.consumer = .finalFlush ∨
    w.state.consumer = .ended
  passes : w.passes ≤ w.base + 1
  published : w.base ≤ w.published
  fresh : w.fresh = true → w.base < w.published
  explained : w.state.Explained w.reads w.fresh
  steps : w.steps + w.state.left conf ≤ w.passes * conf.passSteps
  returned : ∀ r ∈ w.before, r ∈ w.state.returned
  first : ∀ p, w.first p ≤ (w.state.producer p).queue.head
  ordered : ∀ p, w.consumed.filter (fun r => r.producer = p) =
    (List.range' (w.first p) ((w.state.producer p).queue.head - w.first p)).map (RecordId.mk p)

theorem Idle.next_done (h : w.state.consumer.idling = false) :
    w.next conf a s' = { w with state := s' } := by
  rw [Idle.next, if_pos h]

theorem Idle.next_restart (h : restarts w.state a = true) :
    w.next conf a s' =
      { w with
        state := s'
        passes := w.passes + 1
        base := w.published
        steps := w.steps + 1
        reads := []
        fresh := false
        before := w.state.returned } := by
  have hidling : ¬ w.state.consumer.idling = false := by
    simp only [restarts, Bool.and_eq_true, beq_iff_eq] at h
    rw [h.2]
    exact nofun
  rw [Idle.next, if_neg hidling, if_pos h]

theorem Idle.next_go (hidling : w.state.consumer.idling = true)
    (h : restarts w.state a = false) :
    w.next conf a s' =
      { w with
        state := s'
        published := w.published + (publishes conf w.state a).toList.length
        steps := w.steps + if a = .consumer then 1 else 0
        reads := (readsTail w.state a).toList ++ w.reads
        fresh := w.fresh || (publishes conf w.state a).any fun p => decide (p ∈ w.reads)
        consumed := w.consumed ++ (takesOff w.state a).toList } := by
  rw [Idle.next, if_neg (by simp [hidling]), if_neg (by simp [h])]

theorem returned_step (hstep : step conf s a = some s') {r : RecordId} (hr : r ∈ s.returned) :
    r ∈ s'.returned := by
  rcases step_cases hstep with ⟨t, hthread⟩ | hconsumer
  · exact hthread.returned hr
  · rwa [hconsumer.ledger_eq.1]

theorem takesOff_number {r : RecordId} (h : takesOff s a = some r) :
    r.number = (s.producer r.producer).queue.head := by
  cases a with
  | consumer =>
      simp only [takesOff] at h
      split at h
      · split at h
        · obtain rfl := Option.some.inj h
          rfl
        · contradiction
      · contradiction
  | _ => contradiction

/-- What is consumed of a queue continues where the queue stood. -/
theorem consumed_step {consumed : List RecordId} {first : ℕ} (hstep : step conf s a = some s')
    (p : ProducerId) (hfirst : first ≤ (s.producer p).queue.head)
    (h : consumed.filter (fun r => r.producer = p) =
      (List.range' first ((s.producer p).queue.head - first)).map (RecordId.mk p)) :
    first ≤ (s'.producer p).queue.head ∧
      (consumed ++ (takesOff s a).toList).filter (fun r => r.producer = p) =
        (List.range' first ((s'.producer p).queue.head - first)).map (RecordId.mk p) := by
  have hhead := head_step hstep p
  rw [List.filter_append, h]
  by_cases htakes : takesOff s a = some ⟨p, (s.producer p).queue.head⟩
  · rw [if_pos htakes] at hhead
    have hlength : (s'.producer p).queue.head - first =
        (s.producer p).queue.head - first + 1 := by omega
    have hlast : first + 1 * ((s.producer p).queue.head - first) =
        (s.producer p).queue.head := by omega
    refine ⟨by omega, ?_⟩
    rw [hlength, List.range'_concat, List.map_append, hlast, htakes]
    simp
  · rw [if_neg htakes, Nat.add_zero] at hhead
    rw [hhead]
    refine ⟨hfirst, ?_⟩
    have hother : (takesOff s a).toList.filter (fun r => r.producer = p) = [] := by
      apply List.filter_eq_nil_iff.mpr
      intro r hr
      rw [Option.mem_toList] at hr
      have hnumber := takesOff_number hr
      obtain ⟨q, n⟩ := r
      simp only [decide_eq_true_eq]
      rintro rfl
      exact htakes (hr.trans (congrArg (fun m => some (RecordId.mk q m)) hnumber))
    rw [hother, List.append_nil]

theorem idling_of_restarts (h : restarts s a = true) :
    a = .consumer ∧ s.consumer = .pass (.final false) .done := by
  simpa [restarts] using h

/-- After the drain the consumer flushes the sinks and ends. -/
theorem ConsumerStep.after_drain (hstep : ConsumerStep conf s s')
    (h : s.consumer = .finalFlush ∨ s.consumer = .ended) : s'.consumer = .ended := by
  cases hstep with
  | finalFlush => rfl
  | consume hc => simp [hc] at h
  | _ => simp_all

/-- The drain goes on, or its last pass is over. -/
theorem ConsumerStep.idling (hstep : ConsumerStep conf s s') (h : s.consumer.idling = true) :
    s'.consumer.idling = true ∨
      s'.consumer = .finalFlush ∧ s.consumer = .pass (.final true) .done := by
  cases hstep with
  | consume => exact .inl h
  | secondEmpty hc =>
      rename_i p _
      rw [hc] at h
      cases p <;> exact .inl h
  | repost hc | remarkLost hc =>
      rw [hc] at h
      exact .inl ((isFinal_notDrained _).trans h)
  | passDone hc =>
      rename_i round
      rw [hc] at h
      cases round with
      | final allDrained =>
          cases allDrained with
          | true => exact .inr ⟨rfl, hc⟩
          | false => exact .inl rfl
      | _ => contradiction
  | sampleTicket hc | startFlush hc | noFlush hc | flushSinks hc | completeFlush hc | stop hc
  | sleep hc | again hc | awake hc | finalFlush hc =>
      rw [hc] at h
      contradiction
  | singleVisit hc | singleSkip hc | countFlush hc | countWords hc | takeWord hc | wordsDone hc
  | bitsDone hc | bitVisit hc | slotVisit hc | slotsDone hc | readTail hc | consumed hc
  | firstEmpty hc | firstFilled hc | clearEnqueued hc | secondFilled hc | remarkWon hc
  | isRetired hc | notRetired hc | markFree hc | pushFree hc =>
      rw [hc] at h
      exact .inl h

/-- A step after the drain. -/
theorem IdleSound.done (h : IdleSound conf w) (hdone : w.state.consumer.idling = false)
    (hstep : step conf w.state a = some s') : IdleSound conf (w.next conf a s') := by
  have hafter := h.phase.resolve_left (by simp [hdone])
  have hafter' : s'.consumer = .finalFlush ∨ s'.consumer = .ended := by
    rcases step_cases hstep with ⟨t, hthread⟩ | hconsumer
    · rwa [hthread.consumer_eq]
    · exact .inr (hconsumer.after_drain hafter)
  have hleft : s'.left conf = 0 := by
    rcases hafter' with hc | hc <;> simp [State.left, hc]
  have htakes : takesOff w.state a = none := by
    cases a with
    | consumer => rcases hafter with hc | hc <;> simp [takesOff, hc]
    | _ => rfl
  have hhead : ∀ p, (s'.producer p).queue.head = (w.state.producer p).queue.head := by
    intro p
    simp [head_step hstep p, htakes]
  rw [Idle.next_done hdone]
  exact
    { base := drainBase_step h.base hstep
      phase := .inr hafter'
      passes := h.passes
      published := h.published
      fresh := h.fresh
      explained := by
        rcases hafter' with hc | hc <;> simp [State.Explained, hc]
      steps := by
        rw [hleft]
        exact Nat.le_trans (Nat.le_add_right _ _) h.steps
      returned := fun r hr => returned_step hstep (h.returned r hr)
      first := fun p => by
        rw [hhead]
        exact h.first p
      ordered := fun p => by
        rw [hhead]
        exact h.ordered p }

/-- The next pass after one that failed. -/
theorem IdleSound.restart (h : IdleSound conf w) (hrestarts : restarts w.state a = true)
    (hstep : step conf w.state a = some s') : IdleSound conf (w.next conf a s') := by
  obtain ⟨rfl, hc⟩ := idling_of_restarts hrestarts
  obtain rfl : s' = { w.state with consumer := .pass (.final true) Cursor.first } := by
    simpa [step, consumerStep, hc, passStep, Round.finish] using hstep.symm
  have hfresh := h.fresh (h.explained.pass hc rfl)
  have hsteps := h.steps
  have hleft : w.state.left conf = 1 := by rw [State.left, hc]; rfl
  rw [Idle.next_restart hrestarts]
  exact
    { base := drainBase_step h.base hstep
      phase := .inl rfl
      passes := by
        have hpasses := h.passes
        dsimp only
        omega
      published := Nat.le_refl _
      fresh := fun hfresh => by contradiction
      explained := fun hfailed => by contradiction
      steps := by
        rw [hleft] at hsteps
        change w.steps + 1 + conf.passSteps ≤ (w.passes + 1) * conf.passSteps
        rw [Nat.add_mul, Nat.one_mul]
        exact Nat.add_le_add_right hsteps _
      returned := fun r hr => hr
      first := h.first
      ordered := h.ordered }

/-- A step of the present pass. -/
theorem IdleSound.go (h : IdleSound conf w) (hidling : w.state.consumer.idling = true)
    (hrestarts : restarts w.state a = false) (hstep : step conf w.state a = some s') :
    IdleSound conf (w.next conf a s') := by
  have hconsumed := fun p => consumed_step hstep p (h.first p) (h.ordered p)
  have hsteps := h.steps
  rw [Idle.next_go hidling hrestarts]
  refine
    { base := drainBase_step h.base hstep
      phase := ?_
      passes := h.passes
      published := Nat.le_trans h.published (Nat.le_add_right _ _)
      fresh := fun hfresh => ?_
      explained := ?_
      steps := ?_
      returned := fun r hr => returned_step hstep (h.returned r hr)
      first := fun p => (hconsumed p).1
      ordered := fun p => (hconsumed p).2 }
  · rcases step_cases hstep with ⟨t, hthread⟩ | hconsumer
    · exact .inl (hthread.consumer_eq ▸ hidling)
    · exact (hconsumer.idling hidling).imp_right fun hend => .inl hend.1
  · rcases Bool.or_eq_true_iff.mp hfresh with hold | hnew
    · exact Nat.lt_of_lt_of_le (h.fresh hold) (Nat.le_add_right _ _)
    · cases hp : publishes conf w.state a with
      | none => simp [hp] at hnew
      | some p => exact Nat.lt_succ_of_le h.published
  · by_cases ha : a = .consumer
    · subst ha
      have hexplained := h.explained.consumer (fun p => (h.base.cells p).ordered) hidling
        (consumerStep_cases hstep)
      simpa [publishes] using hexplained
    · obtain ⟨t, hthread⟩ := (step_cases_consumer hstep).resolve_right fun hc => ha hc.1
      have hreads : readsTail w.state a = none := by
        cases a <;> first | rfl | contradiction
      have hexplained := h.explained.thread hstep hthread
      simpa [hreads] using hexplained
  · by_cases ha : a = .consumer
    · subst ha
      have hleft : s'.left conf < w.state.left conf := by
        rcases (consumerStep_cases hstep).left_lt h.base.ownership h.base.pass h.base.fits
          hidling with hlt | ⟨round, hc, hc'⟩
        · exact hlt
        · -- a pass that has not failed is the last one
          rw [State.left, State.left, hc, hc']
          rw [hc] at hidling
          cases round with
          | final allDrained =>
              cases allDrained with
              | true => exact Nat.zero_lt_one
              | false => simp [restarts, hc] at hrestarts
          | _ => contradiction
      dsimp only
      rw [if_pos rfl]
      omega
    · obtain ⟨t, hthread⟩ := (step_cases_consumer hstep).resolve_right fun hc => ha hc.1
      dsimp only
      rw [if_neg ha, Nat.add_zero, hthread.left_eq]
      exact hsteps

theorem idleSound_start (h : (handoff conf).Reachable s) (hbetween : s.consumer.between = true) :
    IdleSound conf (Idle.start s) where
  base := drainBase_start h hbetween
  phase := .inl rfl
  passes := Nat.le_refl _
  published := Nat.le_refl _
  fresh := nofun
  explained := nofun
  steps := by
    change 0 + conf.passSteps ≤ 1 * conf.passSteps
    rw [Nat.zero_add, Nat.one_mul]
  returned := fun r hr => hr
  first := fun p => Nat.le_refl _
  ordered := fun p => by
    change [] = (List.range' _ ((s.producer p).queue.head - (s.producer p).queue.head)).map _
    rw [Nat.sub_self]
    rfl

theorem idleSound_of_reachable (h : (untilIdle conf).Reachable w) : IdleSound conf w := by
  refine h.invariant ?_ fun w a w' _ hs hstep => ?_
  · rintro _ ⟨s, hs, hbetween, rfl⟩
    exact idleSound_start hs hbetween
  · obtain ⟨s', hnext, rfl⟩ := Option.map_eq_some_iff.mp hstep
    cases hidling : w.state.consumer.idling with
    | false => exact hs.done hidling hnext
    | true =>
        cases hrestarts : restarts w.state a with
        | true => exact hs.restart hrestarts hnext
        | false => exact hs.go hidling hrestarts hnext

theorem failed_explained {reads : List ProducerId} {fresh : Bool} (h : s.Explained reads fresh)
    (hfailed : s.consumer.failed = true) : fresh = true := by
  cases hc : s.consumer with
  | pass round cursor =>
      rw [hc, ConsumerPc.failed, beq_iff_eq] at hfailed
      exact h.pass hc hfailed
  | visit round resume p stage =>
      rw [hc, ConsumerPc.failed, beq_iff_eq] at hfailed
      exact (h.visit hc).1 hfailed
  | _ =>
      rw [hc] at hfailed
      contradiction

/-! ## What the last pass takes -/

/-- The records whose log call had returned before the pass are covered by it. -/
structure Idle.Covers (w : Idle) : Prop where
  covered : w.state.consumer.lastPass = true → ∀ r ∈ w.before, Covered w.state r
  taken : w.state.consumer.idling = false → ∀ r ∈ w.before, Taken w.state r

theorem idling_of_lastPass {consumer : ConsumerPc} (h : consumer.lastPass = true) :
    consumer.idling = true := by
  cases consumer with
  | pass round _ | visit round _ _ _ => cases round <;> first | rfl | contradiction
  | _ => contradiction

theorem Taken.step {r : RecordId} (h : Taken s r) (hstep : Handoff.step conf s a = some s') :
    Taken s' r := by
  rw [Taken, head_step hstep]
  exact Nat.lt_of_lt_of_le h (Nat.le_add_right _ _)

theorem Idle.Covers.consumer (hs : IdleSound conf w) (h : w.Covers)
    (hidling : w.state.consumer.idling = true) (hok : ¬ w.Overlooks)
    (hstep : ConsumerStep conf w.state s') :
    (s'.consumer.lastPass = true → ∀ r ∈ w.before, Covered s' r) ∧
      (s'.consumer.idling = false → ∀ r ∈ w.before, Taken s' r) := by
  rcases hstep.ending with ⟨-, hc'⟩ | ⟨hlast, -, hnext⟩ | ⟨hc, hc'⟩ | ⟨hc, -, -⟩
  · refine ⟨fun _ _ _ => covered_first hc', fun hdone => ?_⟩
    rw [hc'] at hdone
    contradiction
  · refine ⟨fun hlast' r hr => ?_, fun hdone => ?_⟩
    · by_cases htaken : Taken w.state r
      · exact .inl (htaken.consumer hstep)
      · have hreturned := hs.returned r hr
        refine ((h.covered (hlast hlast') r hr).consumer hs.base.ownership hs.base.makings
          hs.base.pass (hs.base.ledger.returned r hreturned) hstep).resolve_right fun hpasses => ?_
        obtain ⟨t, record, hpc, hrecord⟩ := marked_of_passes hs.base.ledger
          (hs.base.cells r.producer) hreturned htaken hpasses
        obtain ⟨round, pages, words, i, hp, hlt, hc, hbit⟩ := hpasses
        obtain rfl := final_of_lastPass hc (hlast hlast')
        exact hok ⟨pages, words, i, t, record, r, hc, hlt, hbit, hpc, hrecord.trans hp, hr, hp,
          htaken⟩
    · rcases hstep.idling hidling with hidling' | ⟨hend, -⟩
      · rw [hdone] at hidling'
        contradiction
      · exact absurd hend hnext.1
  · refine ⟨fun hlast => ?_, fun _ r hr => ?_⟩
    · rw [hc'] at hlast
      contradiction
    · have hcovered := h.covered (by rw [hc]; rfl) r hr
      exact (hcovered.done hc).consumer hstep
  · rw [hc] at hidling
    contradiction

theorem Idle.Covers.next (hs : IdleSound conf w) (h : w.Covers) (hok : w.Attentive a)
    (hstep : step conf w.state a = some s') : (w.next conf a s').Covers := by
  cases hidling : w.state.consumer.idling with
  | false =>
      have hsound := hs.done hidling hstep
      rw [Idle.next_done hidling] at hsound ⊢
      refine ⟨fun hlast => ?_, fun _ r hr => (h.taken hidling r hr).step hstep⟩
      have hafter := hs.phase.resolve_left (by simp [hidling])
      rcases step_cases hstep with ⟨t, hthread⟩ | hconsumer
      · rw [hthread.consumer_eq] at hlast
        rw [idling_of_lastPass hlast] at hidling
        contradiction
      · rw [hconsumer.after_drain hafter] at hlast
        contradiction
  | true =>
      cases hrestarts : restarts w.state a with
      | true =>
          obtain ⟨rfl, hc⟩ := idling_of_restarts hrestarts
          obtain rfl : s' = { w.state with consumer := .pass (.final true) Cursor.first } := by
            simpa [step, consumerStep, hc, passStep, Round.finish] using hstep.symm
          rw [Idle.next_restart hrestarts]
          exact ⟨fun _ _ _ => covered_first rfl, fun hdone => by contradiction⟩
      | false =>
          rw [Idle.next_go hidling hrestarts]
          rcases step_cases_consumer hstep with ⟨t, hthread⟩ | ⟨rfl, hconsumer⟩
          · have hconsumer := hthread.consumer_eq
            refine ⟨fun hlast r hr => ?_, fun hdone => ?_⟩
            · exact (h.covered (hconsumer ▸ hlast) r hr).thread hthread
            · dsimp only at hdone
              rw [hconsumer, hidling] at hdone
              contradiction
          · obtain ⟨hcovered, htaken⟩ := h.consumer hs hidling (hok rfl) hconsumer
            exact ⟨hcovered, htaken⟩

theorem covers_of_attentive (h : (untilIdle conf).ReachableWhere Idle.Attentive w) :
    w.Covers := by
  refine h.invariant ?_ fun w a w' hs hcovers hok hstep => ?_
  · rintro _ ⟨s, -, -, rfl⟩
    exact ⟨fun _ _ _ => covered_first rfl, nofun⟩
  · obtain ⟨s', hnext, rfl⟩ := Option.map_eq_some_iff.mp hstep
    exact hcovers.next (idleSound_of_reachable hs) hok hnext

/-! ## The contract -/

/-- `consumer_main` calls `drain_until_idle` when it finds the stop request. -/
theorem start_of_stop {seq : ℕ} {allDrained : Bool} (hc : s.consumer = .readStop seq allDrained)
    (hstop : s.stopRequested = true) : step conf s .consumer = some (Idle.start s).state := by
  simp [step, consumerStep, hc, hstop, Idle.start]

/-- It always returns: with `n` publications, after at most `n + 1` passes. -/
theorem idleBounds_of_reachable (h : (untilIdle conf).Reachable w) : IdleBounds conf w := by
  have hs := idleSound_of_reachable h
  have hpasses : w.passes ≤ w.published + 1 :=
    Nat.le_trans hs.passes (Nat.succ_le_succ hs.published)
  refine
    { passes := hpasses
      explained := failed_explained hs.explained
      steps := ?_
      running := consumer_isSome hs.base.ownership hs.base.pass hs.base.ready
      ordered := hs.ordered }
  calc w.steps
      ≤ w.passes * conf.passSteps := Nat.le_trans (Nat.le_add_right _ _) hs.steps
    _ ≤ (w.published + 1) * conf.passSteps := Nat.mul_le_mul_right _ hpasses

/-- It consumes all if its last pass never overlooks a producer. -/
theorem idleContract_of_attentive (h : (untilIdle conf).ReachableWhere Idle.Attentive w) :
    IdleContract conf w :=
  { idleBounds_of_reachable h.reachable with complete := (covers_of_attentive h).taken }

@[simp] theorem Idle.next_state : (w.next conf a s').state = s' := by
  unfold Idle.next
  split
  · rfl
  · split <;> rfl

theorem run_state {actions : List Action} (h : (untilIdle conf).run w actions = some w') :
    (handoff conf).run w.state actions = some w'.state := by
  induction actions generalizing w with
  | nil =>
      obtain rfl : w = w' := by simpa [System.run] using h
      rfl
  | cons a actions ih =>
      obtain ⟨next, hnext, hrest⟩ := Option.bind_eq_some_iff.mp h
      obtain ⟨s', hs', rfl⟩ := Option.map_eq_some_iff.mp hnext
      exact Option.bind_eq_some_iff.mpr ⟨s', hs', by simpa using ih hrest⟩

/-- Where no thread is about to raise a ready bit, the consumer overlooks nothing. -/
theorem attentive_of_quiet {n : ℕ} (h : (untilIdle conf).ReachableWhere Idle.Attentive w)
    (hquiet : ∀ t record, w.state.pc t ≠ .publishBit record)
    (hrun : (untilIdle conf).run w (List.replicate n .consumer) = some w') :
    (untilIdle conf).ReachableWhere Idle.Attentive w' := by
  refine h.run (I := fun w => ∀ t record, w.state.pc t ≠ .publishBit record) hrun hquiet ?_ ?_
  · rintro w hI a - - ⟨pages, words, i, t, record, r, -, -, -, hpc, -⟩
    exact hI t record hpc
  · intro w a w' ha hI hstep
    obtain rfl := List.eq_of_mem_replicate ha
    obtain ⟨s', hs', rfl⟩ := Option.map_eq_some_iff.mp hstep
    rw [Idle.next_state, (consumerStep_cases hs').pc_eq]
    exact hI

/-- Thread 0 logs a record of the demo runtime. -/
def demoFirst : List Action :=
  [.call 0 (.log 0 .info), .thread 0, .thread 0, .thread 0, .produce 0 .written, .thread 0,
    .thread 0, .thread 0, .thread 0]

/-- It logs another one when the first pass has read the tail of its queue. -/
def demoMore : List Action :=
  [.call 0 (.log 0 .info), .thread 0, .thread 0, .produce 0 .written, .thread 0, .thread 0]

theorem quiet_of_idle {actions : List Action}
    (h0 : ∀ a ∈ actions, a.thread? ≠ none → a.thread? = some 0)
    (hrun : (handoff conf).run s actions = some s') (hquiet : ∀ t, t ≠ 0 → s.pc t = .idle)
    (hpc : s'.pc 0 = .idle) (t : ℕ) : s'.pc t = .idle := by
  by_cases ht : t = 0
  · rw [ht, hpc]
  · rw [run_pc_of_ne hrun, hquiet t ht]
    intro a ha hthread
    have hzero := h0 a ha (by simp [hthread])
    rw [hthread] at hzero
    exact ht (Option.some.inj hzero)

/-- The first pass fails because of the second record, and the second pass consumes it. -/
theorem idleContract_twice :
    ∃ w, (untilIdle demo).Reachable w ∧ w.state.consumer = .finalFlush ∧ w.passes = 2 ∧
      w.published = 1 ∧ w.consumed = [⟨.pooled .normal 0, 0⟩, ⟨.pooled .normal 0, 1⟩] ∧
      IdleContract demo w := by
  have hfirst : ((handoff demo).run (.started demo fun _ => .info) demoFirst).map
      (fun s => (s.consumer, s.pc 0)) = some (.sampleTicket, .idle) := by
    decide +kernel
  obtain ⟨s, hs, hfacts⟩ := Option.map_eq_some_iff.mp hfirst
  obtain ⟨hc, hpc⟩ := Prod.mk.inj hfacts
  have hmore : ((((handoff demo).run (.started demo fun _ => .info) demoFirst).map
      Idle.start).bind fun w => (untilIdle demo).run w
        (List.replicate 6 .consumer ++ demoMore)).map (fun w => w.state.pc 0) = some .idle := by
    decide +kernel
  have hend : ((((handoff demo).run (.started demo fun _ => .info) demoFirst).map
      Idle.start).bind fun w => (untilIdle demo).run w
        (List.replicate 6 .consumer ++ demoMore ++ List.replicate 26 .consumer)).map
          (fun w => (w.state.consumer, w.passes, w.published, w.consumed)) =
            some (.finalFlush, 2, 1, [⟨.pooled .normal 0, 0⟩, ⟨.pooled .normal 0, 1⟩]) := by
    decide +kernel
  rw [hs, Option.map_some, Option.bind_some, Option.map_eq_some_iff] at hmore hend
  have hidle : ∀ t, s.pc t = .idle :=
    quiet_of_idle (by simp [demoFirst, Action.thread?]) hs (fun _ _ => rfl) hpc
  have hstart : (untilIdle demo).ReachableWhere Idle.Attentive (Idle.start s) :=
    .initial ⟨s, .run (.initial ⟨_, rfl⟩) hs, by rw [hc]; rfl, rfl⟩
  obtain ⟨third, hthird, hpc'⟩ := hmore
  obtain ⟨w, hw, hfacts'⟩ := hend
  simp only [Prod.mk.injEq] at hfacts'
  obtain ⟨hflush, hpasses, hpublished, hconsumed⟩ := hfacts'
  have hidle' : ∀ t, third.state.pc t = .idle :=
    quiet_of_idle (by simp [demoMore, Action.thread?]) (run_state hthird) (fun t _ => hidle t) hpc'
  rw [System.run_append, hthird, Option.bind_some] at hw
  rw [System.run_append] at hthird
  obtain ⟨second, hsecond, hthreads⟩ := Option.bind_eq_some_iff.mp hthird
  have hready := attentive_of_quiet hstart (fun t record => by simp [Idle.start, hidle t]) hsecond
  have hattentive : (untilIdle demo).ReachableWhere Idle.Attentive third := by
    refine hready.run (I := fun _ => True) hthreads trivial ?_ fun _ _ _ _ _ _ => trivial
    rintro w - a ha rfl
    simp [demoMore] at ha
  have hlast := attentive_of_quiet hattentive (fun t record => by simp [hidle' t]) hw
  exact ⟨w, hlast.reachable, hflush, hpasses, hpublished, hconsumed,
    idleContract_of_attentive hlast⟩

/-- As in `demoStall`, until the consumer finds the stop request. -/
def demoStopped : List Action := demoStall.take (demoStall.length - 11)

/-- The second record was logged before the call, and is not consumed in its only pass. -/
theorem not_idleContract_stalled :
    ∃ s w, (handoff demo).run (.started demo fun _ => .info) demoStopped = some s ∧
      s.consumer = .readStop 1 false ∧ s.stopRequested = true ∧
      (untilIdle demo).run (Idle.start s) (List.replicate 9 .consumer) = some w ∧
      w.state.consumer = .finalFlush ∧ ⟨.pooled .normal 0, 1⟩ ∈ w.before ∧
      ¬ Taken w.state ⟨.pooled .normal 0, 1⟩ ∧ ¬ IdleContract demo w := by
  have hstopped : ((handoff demo).run (.started demo fun _ => .info) demoStopped).map
      (fun s => (s.consumer, s.stopRequested)) = some (.readStop 1 false, true) := by
    decide +kernel
  obtain ⟨s, hs, hfacts⟩ := Option.map_eq_some_iff.mp hstopped
  obtain ⟨hc, hstop⟩ := Prod.mk.inj hfacts
  have hend : ((((handoff demo).run (.started demo fun _ => .info) demoStopped).map
      Idle.start).bind fun w => (untilIdle demo).run w (List.replicate 9 .consumer)).map
        (fun w => (w.state.consumer, w.before, (w.state.producer (.pooled .normal 0)).queue.head)) =
          some (.finalFlush, [⟨.pooled .normal 0, 1⟩, ⟨.pooled .normal 0, 0⟩], 1) := by
    decide +kernel
  rw [hs, Option.map_some, Option.bind_some, Option.map_eq_some_iff] at hend
  obtain ⟨w, hw, hfacts'⟩ := hend
  simp only [Prod.mk.injEq] at hfacts'
  obtain ⟨hflush, hbefore, hhead⟩ := hfacts'
  have hmem : ⟨.pooled .normal 0, 1⟩ ∈ w.before := by simp [hbefore]
  have hnot : ¬ Taken w.state ⟨.pooled .normal 0, 1⟩ := by
    rw [Taken, hhead]
    exact Nat.lt_irrefl 1
  refine ⟨s, w, hs, hc, hstop, hw, hflush, hmem, hnot, fun hcontract => ?_⟩
  exact hnot (hcontract.complete (by rw [hflush]; rfl) _ hmem)

end Unlog.Handoff
