import Unlog.Handoff.Ready
import Unlog.Library.Handshake

/-! # Every producer is a handshake

A producer, what the threads are about to do to it and where the consumer stands to it make a
cell of the handshake, and every step of the program is a run of its steps. -/

namespace Unlog.Handoff

open Library

variable {conf : Sealed} {s s' : State} {t : ℕ} {p : ProducerId}

/-! ## The cell of a producer -/

def Stage.facing : Stage → Visit
  | .readTail | .consume _ | .firstEmpty | .publishReady | .clearEnqueued => .early
  | .secondEmpty | .remark => .late
  | .publishRemark => .remarked
  | .isRetired | .markFree => .leaving
  | .pushFree => .away

def Cursor.facing (p : ProducerId) (cursor : Cursor) : Visit := if cursor.due p then .due else .away

def ConsumerPc.facing (p : ProducerId) : ConsumerPc → Visit
  | .pass _ cursor => cursor.facing p
  | .visit _ resume q stage => if q = p then stage.facing else resume.facing p
  | _ => .away

def ThreadPc.phase (p : ProducerId) : ThreadPc → Phase
  | .countEmitted record _ => if record.producer = p then .written record.number else .rest
  | .countTruncated record => if record.producer = p then .written record.number else .rest
  | .markEnqueued record => if record.producer = p then .written record.number else .rest
  | .publishBit record => if record.producer = p then .marked else .rest
  | .publishRetired pages index => if .pooled pages index = p then .retiring else .rest
  | _ => .rest

/-- A ready bit, or a consumer that comes by anyway. -/
def Signalled (s : State) : ProducerId → Prop
  | .single pages => Alert s (.single pages)
  | .pooled pages index => ReadyBit s pages index

def cell (s : State) (p : ProducerId) : Cell ℕ where
  tail := (s.producer p).queue.tail
  head := (s.producer p).queue.head
  flag := (s.producer p).enqueued
  signal := Signalled s p
  retired := (s.producer p).lifecycle == .retired
  phase t := (s.pc t).phase p
  visit := s.consumer.facing p

/-- The fields of a producer that its cell shows. -/
def Producer.load (producer : Producer) :=
  (producer.queue, producer.enqueued, producer.lifecycle)

theorem load_eq {producer producer' : Producer} (h : producer'.load = producer.load) :
    producer'.queue = producer.queue ∧ producer'.enqueued = producer.enqueued ∧
      producer'.lifecycle = producer.lifecycle := by
  simpa [Producer.load] using h

theorem load_setProducer {q : ProducerId} {value : Producer}
    (h : q = p → value.load = (s.producer p).load) :
    ((s.setProducer q value).producer p).load = (s.producer p).load :=
  State.setProducer_part Producer.load h

/-! ## Steps of a thread -/

theorem ThreadStep.phases (hstep : ThreadStep conf s t s') (p : ProducerId) :
    (fun other => (s'.pc other).phase p) =
      Function.update (fun other => (s.pc other).phase p) t ((s'.pc t).phase p) := by
  funext other
  by_cases heq : other = t
  · subst heq
    rw [Function.update_self]
  · rw [Function.update_of_ne heq, hstep.pc_of_ne heq]

theorem ThreadStep.signalled (hown : Ownership conf s) (hmakings : Makings conf s)
    (htickets : TicketSound s) (hstep : ThreadStep conf s t s') (h : Signalled s p) :
    Signalled s' p := by
  cases p with
  | single pages => exact Alert.thread h htickets hstep
  | pooled pages index => exact (hstep.readyBit hown hmakings pages index).mpr (.inl h)

/-- A thread that signals for a producer is noticed. -/
theorem ThreadStep.announced (hown : Ownership conf s) (hmakings : Makings conf s)
    (hstep : ThreadStep conf s t s') (h : (s.pc t).signals? = some p) : Signalled s' p := by
  cases p with
  | single pages => exact alert_of_waking (hstep.waking (by simp [h]))
  | pooled pages index => exact (hstep.readyBit hown hmakings pages index).mpr (.inr h)

/-- A step that leaves a producer alone leaves its cell alone. -/
theorem ThreadStep.keep (hown : Ownership conf s) (hmakings : Makings conf s)
    (htickets : TicketSound s) (hstep : ThreadStep conf s t s')
    (hload : (s'.producer p).load = (s.producer p).load)
    (hphase : (s'.pc t).phase p = (s.pc t).phase p) :
    Relation.ReflTransGen Cell.Step (cell s p) (cell s' p) := by
  obtain ⟨hqueue, hflag, hlife⟩ := load_eq hload
  refine .single (Cell.Rises.step
    { tail := congrArg Queue.tail hqueue
      head := congrArg Queue.head hqueue
      flag := hflag
      retired := congrArg (· == Lifecycle.retired) hlife
      phase := (hstep.phases p).trans ?_
      visit := congrArg (ConsumerPc.facing p) hstep.consumer_eq
      signal := hstep.signalled hown hmakings htickets })
  rw [hphase, Function.update_eq_self]
  rfl

/-- A step of the cell that a thread takes. -/
theorem ThreadStep.act {c : Cell ℕ} {value : Producer} (hcell : Cell.Step (cell s p) c)
    (hstep : ThreadStep conf s t s') (hnew : s'.producer p = value)
    (htail : value.queue.tail = c.tail) (hhead : value.queue.head = c.head)
    (hflag : value.enqueued = c.flag) (hretired : (value.lifecycle == .retired) = c.retired)
    (hphase : c.phase = Function.update (cell s p).phase t ((s'.pc t).phase p))
    (hvisit : c.visit = (cell s p).visit) (hsignal : c.signal → Signalled s' p) :
    Relation.ReflTransGen Cell.Step (cell s p) (cell s' p) := by
  subst hnew
  refine .tail (.single hcell) (Cell.Rises.step
    { tail := htail
      head := hhead
      flag := hflag
      retired := hretired
      phase := (hstep.phases p).trans hphase.symm
      visit := ?_
      signal := hsignal })
  exact (congrArg (ConsumerPc.facing p) hstep.consumer_eq).trans hvisit.symm

theorem phase_move {pc next : ThreadPc} (hmove : Move conf s t pc next) (p : ProducerId) :
    pc.phase p = .rest ∧ next.phase p = .rest := by
  cases hmove <;> exact ⟨rfl, rfl⟩

theorem phase_entry (call : Call) (p : ProducerId) : (call.entry s t).phase p = .rest := by
  cases call with
  | release pages =>
      simp only [Call.entry]
      split <;> rfl
  | _ => rfl

theorem phase_purpose_next (purpose : Purpose) (pages : Pages) (index : ℕ) (p : ProducerId) :
    (purpose.next pages index).phase p = .rest := by
  cases purpose <;> cases pages <;> rfl

theorem phase_afterPublish (record : RecordId) (truncated : Bool) (p : ProducerId) :
    (afterPublish conf record truncated).phase p =
      if record.producer = p then .written record.number else .rest := by
  unfold afterPublish
  split <;> rfl

theorem phase_other (conf : Sealed) (record : RecordId) (hp : record.producer ≠ p)
    (truncated : Bool) :
    (ThreadPc.countEmitted record truncated).phase p = .rest ∧
    (ThreadPc.countTruncated record).phase p = .rest ∧
    (ThreadPc.markEnqueued record).phase p = .rest ∧
    (ThreadPc.publishBit record).phase p = .rest ∧
    (afterMark record).phase p = .rest ∧
    (afterPublish conf record truncated).phase p = .rest := by
  refine ⟨if_neg hp, if_neg hp, if_neg hp, if_neg hp, ?_, ?_⟩
  · unfold afterMark
    split
    · rfl
    · exact if_neg hp
  · rw [phase_afterPublish, if_neg hp]

/-- Nobody else is about to signal for the producer a thread retires. -/
theorem not_marked_of_retiring (hown : Ownership conf s) {pages : Pages} {index : ℕ}
    (hpc : s.pc t = .retire pages index) (other : ℕ) :
    (s.pc other).phase (.pooled pages index) ≠ .marked := by
  intro hmarked
  have hheld := (hown.pc t).holds pages index (by rw [hpc]; rfl)
  cases ho : s.pc other with
  | publishBit record =>
      rw [ho, ThreadPc.phase] at hmarked
      split at hmarked
      case isFalse => contradiction
      case isTrue hp =>
        have hother := (hown.pc other).holds pages index (by rw [ho]; exact congrArg some hp)
        have heq := (hown.registry pages).holding.unique other t index hother hheld
        rw [heq, hpc] at ho
        contradiction
  | countEmitted | countTruncated | markEnqueued | publishRetired =>
      rw [ho, ThreadPc.phase] at hmarked
      split at hmarked <;> contradiction
  | _ => simp [ho, ThreadPc.phase] at hmarked

/-- A thread takes steps of the handshake with every producer. -/
theorem ThreadStep.reaches (hown : Ownership conf s) (hmakings : Makings conf s)
    (htickets : TicketSound s) (hstep : ThreadStep conf s t s') (p : ProducerId) :
    Relation.ReflTransGen Cell.Step (cell s p) (cell s' p) := by
  have hkeep := hstep.keep hown hmakings htickets (p := p)
  have hsignal := hstep.signalled hown hmakings htickets (p := p)
  have hstep' := hstep
  cases hstep with
  | call call hpc =>
      refine hkeep rfl ?_
      rw [State.setPc_pc_self, hpc]
      exact phase_entry call p
  | move hmove =>
      obtain ⟨hold, hnew⟩ := phase_move hmove p
      refine hkeep rfl ?_
      rw [State.setPc_pc_self, hold, hnew]
  | claimOwner hpc | countDropped hpc =>
      refine hkeep (load_setProducer ?_) ?_
      · rintro rfl
        rfl
      · rw [State.setPc_pc_self, hpc]
        rfl
  | recycle hpc hhead hslot =>
      rename_i pages purpose index
      by_cases hp : p = .pooled pages index
      · subst hp
        have hfree := (hown.registry pages).head_free hhead hslot
        refine hstep'.act (Cell.Step.reclaim _) (State.setProducer_producer_self _) rfl rfl rfl ?_
          ?_ rfl hsignal
        · simp [Producer.reactivate, cell, hfree]
        · rw [State.setPc_pc_self, phase_purpose_next]
          simp [cell, hpc, ThreadPc.phase]
      · refine hkeep (load_setProducer (s := s.setRegistry _ _) ?_) ?_
        · exact fun hq => absurd hq.symm hp
        · rw [State.setPc_pc_self, hpc]
          exact phase_purpose_next purpose pages index p
  | create hpc =>
      rename_i pages purpose _ _
      refine hkeep (load_setProducer (s := s.setRegistry _ _) ?_) ?_
      · rintro rfl
        rfl
      · rw [State.setPc_pc_self, hpc]
        exact phase_purpose_next purpose _ _ p
  | publish truncated hpc =>
      rename_i channel q
      by_cases hp : q = p
      · subst hp
        have hrest : (cell s q).phase t = .rest := by simp [cell, hpc, ThreadPc.phase]
        refine hstep'.act (Cell.Step.append _ t hrest) (State.setProducer_producer_self _) ?_ rfl
          rfl rfl ?_ rfl hsignal
        · exact List.length_append
        · rw [State.setPc_pc_self, phase_afterPublish, if_pos rfl]
          rfl
      · refine hkeep (load_setProducer fun hq => absurd hq hp) ?_
        have hother := phase_other conf ⟨q, (s.producer q).queue.tail⟩ hp truncated
        rw [State.setPc_pc_self, hpc]
        exact hother.2.2.2.2.2
  | countEmitted hpc =>
      rename_i record truncated
      refine hkeep (load_setProducer ?_) ?_
      · rintro rfl
        rfl
      · rw [State.setPc_pc_self, hpc]
        cases truncated <;> rfl
  | countTruncated hpc =>
      refine hkeep (load_setProducer ?_) ?_
      · rintro rfl
        rfl
      · rw [State.setPc_pc_self, hpc]
        rfl
  | markWon hpc hflag =>
      rename_i record
      by_cases hp : record.producer = p
      · obtain ⟨q, n⟩ := record
        obtain rfl : q = p := hp
        have hwritten : (cell s q).phase t = .written n := by simp [cell, hpc, ThreadPc.phase]
        cases q with
        | single pages =>
            refine hstep'.act (Cell.Step.markSignal _ t n hwritten hflag)
              (State.setProducer_producer_self _) rfl rfl rfl rfl ?_ rfl fun _ => ?_
            · rw [State.setPc_pc_self]
              rfl
            · exact alert_of_waking ⟨t, .note _, State.setPc_pc_self _⟩
        | pooled pages index =>
            have hheld := (hown.pc t).holds pages index (by rw [hpc]; rfl)
            have hactive := ((hown.registry pages).holding.held t index hheld).2
            have hretired : (cell s (.pooled pages index)).retired = false := by
              simp [cell, hactive]
            refine hstep'.act (Cell.Step.mark _ t n hwritten hflag hretired)
              (State.setProducer_producer_self _) rfl rfl rfl rfl ?_ rfl hsignal
            rw [State.setPc_pc_self, afterMark, ThreadPc.phase, if_pos rfl]
      · refine hkeep (load_setProducer fun hq => absurd hq hp) ?_
        have hother := phase_other conf _ hp false
        rw [State.setPc_pc_self, hpc, hother.2.2.1]
        exact hother.2.2.2.2.1
  | markLost hpc hflag =>
      rename_i record
      by_cases hp : record.producer = p
      · subst hp
        have hwritten : (cell s record.producer).phase t = .written record.number := by
          simp [cell, hpc, ThreadPc.phase]
        refine hstep'.act (Cell.Step.skip _ t _ hwritten hflag) rfl rfl rfl rfl rfl ?_ rfl hsignal
        rw [State.finishLog_pc, State.setPc_pc_self]
        rfl
      · refine hkeep rfl ?_
        have hother := phase_other conf _ hp false
        rw [State.finishLog_pc, State.setPc_pc_self, hpc, hother.2.2.1]
        rfl
  | publishBit hpc =>
      rename_i record
      by_cases hp : record.producer = p
      · subst hp
        have hmarked : (cell s record.producer).phase t = .marked := by
          simp [cell, hpc, ThreadPc.phase]
        refine hstep'.act (Cell.Step.announce _ t hmarked)
          (congrFun State.publishReadyBit_producer _) rfl rfl rfl rfl ?_ rfl fun _ => ?_
        · rw [State.setPc_pc_self]
          rfl
        · exact hstep'.announced hown hmakings (by rw [hpc]; rfl)
      · refine hkeep (congrArg (fun f => (f p).load) State.publishReadyBit_producer) ?_
        have hother := phase_other conf _ hp false
        rw [State.setPc_pc_self, hpc, hother.2.2.2.1]
        rfl
  | publishRetired hpc =>
      rename_i pages index
      by_cases hp : .pooled pages index = p
      · subst hp
        have hretiring : (cell s (.pooled pages index)).phase t = .retiring := by
          simp [cell, hpc, ThreadPc.phase]
        refine hstep'.act (Cell.Step.announceRetired _ t hretiring)
          (congrFun State.publishReadyBit_producer _) rfl rfl rfl rfl ?_ rfl fun _ => ?_
        · rw [State.setPc_pc_self]
          rfl
        · exact hstep'.announced hown hmakings (by rw [hpc]; rfl)
      · refine hkeep (congrArg (fun f => (f p).load) State.publishReadyBit_producer) ?_
        rw [State.setPc_pc_self, hpc]
        exact (if_neg hp).symm
  | retire hpc hactive =>
      rename_i pages index
      by_cases hp : .pooled pages index = p
      · subst hp
        have hrest : (cell s (.pooled pages index)).phase t = .rest := by
          simp [cell, hpc, ThreadPc.phase]
        refine hstep'.act (Cell.Step.retire _ t hrest (not_marked_of_retiring hown hpc))
          (State.setProducer_producer_self _) rfl rfl rfl rfl ?_ rfl hsignal
        rw [State.setPc_pc_self, ThreadPc.phase, if_pos rfl]
      · refine hkeep (load_setProducer fun hq => absurd hq hp) ?_
        rw [State.setPc_pc_self, hpc]
        exact if_neg hp
  | wake hpc =>
      rename_i waker
      refine hkeep (by cases waker <;> rfl) ?_
      rw [hpc]
      cases waker <;> simp [wakeStep, ThreadPc.phase]
  | flushLeft hpc =>
      refine hkeep rfl ?_
      rw [State.setPc_pc_self]
      rcases hpc with hpc | ⟨target, before, hpc⟩ <;> rw [hpc] <;> rfl
  | setLevel level hpc =>
      refine hkeep rfl ?_
      rw [State.setPc_pc_self]
      rcases hpc with ⟨channel, value, hpc⟩ | ⟨value, hpc⟩ <;> rw [hpc] <;> rfl
  | retireLost hpc | flushAdmit hpc | flushRequest hpc | destroy hpc | requestStop hpc | joined hpc
  | resetSinks hpc | finishDestroy _ hpc =>
      refine hkeep rfl ?_
      rw [State.setPc_pc_self, hpc]
      rfl

/-! ## Steps of the consumer -/

theorem facing_away {cursor : Cursor} (h : cursor.due p = false) : cursor.facing p = .away := by
  rw [Cursor.facing, h]
  rfl

theorem facing_self (round : Round) (resume : Cursor) (stage : Stage) :
    (ConsumerPc.visit round resume p stage).facing p = stage.facing :=
  if_pos rfl

theorem facing_other {q : ProducerId} (round : Round) (resume : Cursor) (stage : Stage)
    (hq : q ≠ p) : (ConsumerPc.visit round resume q stage).facing p = resume.facing p :=
  if_neg hq

theorem ConsumerStep.signalled (hown : Ownership conf s) (hmakings : Makings conf s)
    (hpass : PassSound s) (hmade : Made conf s p) (hstep : ConsumerStep conf s s')
    (h : Signalled s p) :
    Signalled s' p ∨ (∃ pages, p = .single pages) ∧ s'.consumer.visit? = some (p, .readTail) ∨
      ∃ round pages words i, p = .pooled pages i ∧ i / 64 < words ∧
        s.consumer = .pass round (.word pages words (i / 64)) := by
  cases p with
  | single pages => exact Alert.consumer h hown hpass hmade hstep
  | pooled pages index =>
      rcases hstep.bits hown hmakings with
        ⟨round, pages', words, word, hc, hlt, -, hbits⟩ | ⟨q, stage, -, -, hbits⟩ | ⟨-, hbits⟩
      · by_cases hword : pages = pages' ∧ index / 64 = word
        · obtain ⟨rfl, rfl⟩ := hword
          exact .inr (.inr ⟨round, pages, words, index, rfl, hlt, hc⟩)
        · exact .inl ((hbits pages index).mpr ⟨h, hword⟩)
      · exact .inl ((hbits pages index).mpr (.inl h))
      · exact .inl ((hbits pages index).mpr h)

theorem ConsumerStep.keep (hstep : ConsumerStep conf s s')
    (hload : (s'.producer p).load = (s.producer p).load)
    (hfacing : s'.consumer.facing p = s.consumer.facing p)
    (hsignal : Signalled s p → Signalled s' p) :
    Relation.ReflTransGen Cell.Step (cell s p) (cell s' p) := by
  obtain ⟨hqueue, hflag, hlife⟩ := load_eq hload
  exact .single (Cell.Rises.step
    { tail := congrArg Queue.tail hqueue
      head := congrArg Queue.head hqueue
      flag := hflag
      retired := congrArg (· == Lifecycle.retired) hlife
      phase := congrArg (fun pc other => ThreadPc.phase p (pc other)) hstep.pc_eq
      visit := hfacing
      signal := hsignal })

/-- A step of the cell that the consumer takes. -/
theorem ConsumerStep.act {c : Cell ℕ} {value : Producer} (hcell : Cell.Step (cell s p) c)
    (hstep : ConsumerStep conf s s') (hnew : s'.producer p = value)
    (htail : value.queue.tail = c.tail) (hhead : value.queue.head = c.head)
    (hflag : value.enqueued = c.flag) (hretired : (value.lifecycle == .retired) = c.retired)
    (hphase : c.phase = (cell s p).phase) (hvisit : s'.consumer.facing p = c.visit)
    (hsignal : c.signal → Signalled s' p) :
    Relation.ReflTransGen Cell.Step (cell s p) (cell s' p) := by
  subst hnew
  refine .tail (.single hcell) (Cell.Rises.step
    { tail := htail
      head := hhead
      flag := hflag
      retired := hretired
      phase := ?_
      visit := hvisit
      signal := hsignal })
  exact (congrArg (fun pc other => ThreadPc.phase p (pc other)) hstep.pc_eq).trans hphase.symm

/-- The consumer comes to a producer. -/
theorem ConsumerStep.begins (hstep : ConsumerStep conf s s')
    (hnew : s'.producer p = s.producer p)
    (hbefore : s.consumer.facing p = .away ∨ s.consumer.facing p = .due)
    (hafter : s'.consumer.facing p = .early) :
    Relation.ReflTransGen Cell.Step (cell s p) (cell s' p) :=
  hstep.act (Cell.Step.begin _ (Signalled s' p) hbefore) hnew rfl rfl rfl rfl rfl hafter id

section Visit

variable {round round' : Round} {resume : Cursor} {q : ProducerId} {stage stage' : Stage}
  {c : Cell ℕ}

/-- The consumer acts on the producer that it visits, and stays. -/
theorem ConsumerStep.stays {value : Producer} (hstep : ConsumerStep conf s s')
    (hc : s.consumer = .visit round resume q stage)
    (hc' : s'.consumer = .visit round resume q stage')
    (hproducer : s'.producer = (s.setProducer q value).producer)
    (hcell : s.consumer.facing q = stage.facing → Cell.Step (cell s q) c)
    (htail : value.queue.tail = c.tail) (hhead : value.queue.head = c.head)
    (hflag : value.enqueued = c.flag) (hretired : (value.lifecycle == .retired) = c.retired)
    (hphase : c.phase = (cell s q).phase) (hvisit : stage'.facing = c.visit)
    (hsignal : c.signal → Signalled s q) (hs : Signalled s p → Signalled s' p) :
    Relation.ReflTransGen Cell.Step (cell s p) (cell s' p) := by
  by_cases hq : q = p
  · subst hq
    have hfacing : s.consumer.facing q = stage.facing := by
      rw [hc]
      exact facing_self ..
    have hnew : s'.producer q = value := by
      rw [hproducer]
      exact State.setProducer_producer_self _
    have hfacing' : s'.consumer.facing q = c.visit := by
      rw [hc', facing_self, hvisit]
    exact hstep.act (hcell hfacing) hnew htail hhead hflag hretired hphase hfacing'
      fun h => hs (hsignal h)
  · refine hstep.keep ?_ ?_ hs
    · rw [hproducer]
      exact load_setProducer fun h => absurd h hq
    · rw [hc, hc', facing_other _ _ _ hq, facing_other _ _ _ hq]

/-- The consumer goes on from the producer that it visits. -/
theorem ConsumerStep.leaves (hstep : ConsumerStep conf s s')
    (hc : s.consumer = .visit round resume q stage) (hc' : s'.consumer = .pass round' resume)
    (hturned : resume.due q = false) (hproducer : s'.producer p = s.producer p)
    (hcell : s.consumer.facing q = stage.facing → Cell.Step (cell s q) c)
    (htail : c.tail = (cell s q).tail) (hhead : c.head = (cell s q).head)
    (hflag : c.flag = (cell s q).flag) (hretired : c.retired = (cell s q).retired)
    (hphase : c.phase = (cell s q).phase) (hvisit : c.visit = .away)
    (hsignal : q = p → c.signal → Signalled s' q) (hs : Signalled s p → Signalled s' p) :
    Relation.ReflTransGen Cell.Step (cell s p) (cell s' p) := by
  by_cases hq : q = p
  · subst hq
    have hfacing : s.consumer.facing q = stage.facing := by
      rw [hc]
      exact facing_self ..
    have hfacing' : s'.consumer.facing q = c.visit := by
      rw [hc', hvisit]
      exact facing_away hturned
    exact hstep.act (hcell hfacing) hproducer htail.symm hhead.symm hflag.symm hretired.symm hphase
      hfacing' (hsignal rfl)
  · refine hstep.keep (congrArg Producer.load hproducer) ?_ hs
    rw [hc, hc', facing_other _ _ _ hq]
    rfl

end Visit

/-- The consumer takes steps of the handshake with every producer that was made. -/
theorem ConsumerStep.reaches (hown : Ownership conf s) (hmakings : Makings conf s)
    (hpass : PassSound s) (hmade : Made conf s p) (hstep : ConsumerStep conf s s') :
    Relation.ReflTransGen Cell.Step (cell s p) (cell s' p) := by
  have hsignal : s'.consumer.visit? ≠ some (p, .readTail) →
      (∀ round pages words i, p = .pooled pages i → i / 64 < words →
        s.consumer ≠ .pass round (.word pages words (i / 64))) →
      Signalled s p → Signalled s' p := by
    intro hvisit htake h
    rcases hstep.signalled hown hmakings hpass hmade h with
      hs | ⟨-, hv⟩ | ⟨round, pages, words, i, hp, hlt, hc⟩
    · exact hs
    · exact absurd hv hvisit
    · exact absurd hc (htake round pages words i hp hlt)
  have hturned := hpass.turned
  have hstep' := hstep
  cases hstep with
  | sampleTicket hc | singleSkip hc | countFlush hc | countWords hc | startFlush hc | noFlush hc
  | flushSinks hc | completeFlush hc | stop hc | sleep hc | again hc | awake hc | finalFlush hc =>
      refine hstep'.keep rfl ?_ (hsignal (by simp [ConsumerPc.visit?]) (by simp [hc]))
      rw [hc]
      simp [ConsumerPc.facing, Cursor.facing]
  | readTail hc | consumed hc | firstEmpty hc | firstFilled hc | secondFilled hc | isRetired hc =>
      refine hstep'.keep rfl ?_ (hsignal (by simp [ConsumerPc.visit?]) (by simp [hc]))
      rw [hc]
      rfl
  | singleVisit hc hsingle =>
      rename_i round pages
      by_cases hp : p = .single pages
      · subst hp
        refine hstep'.begins rfl (.inl ?_) (facing_self ..)
        rw [hc]
        exact facing_away (due_single _)
      · refine hstep'.keep rfl ?_ (hsignal (by simp [ConsumerPc.visit?, Ne.symm hp]) (by simp [hc]))
        rw [hc, facing_other _ _ _ (Ne.symm hp)]
        simp [ConsumerPc.facing, Cursor.facing]
  | takeWord hc hlt =>
      rename_i round pages words index
      by_cases hword : ∃ i, p = .pooled pages i ∧ i / 64 = index
      · obtain ⟨i, rfl, rfl⟩ := hword
        have haway : s.consumer.facing (.pooled pages i) = .away := by
          rw [hc]
          exact facing_away due_word
        by_cases hbit : ReadyBit s pages i
        · refine hstep'.act (Cell.Step.take _ (Signalled _ (.pooled pages i)) haway) rfl rfl rfl rfl
            rfl rfl ?_ id
          exact if_pos ((due_taken words).mpr hbit)
        · refine hstep'.keep rfl ?_ fun h => absurd h hbit
          refine (facing_away ?_).trans haway.symm
          simpa using mt (due_taken words).mp hbit
      · have hother : ∀ i, p = .pooled pages i → i / 64 ≠ index := fun i hp hi => hword ⟨i, hp, hi⟩
        refine hstep'.keep rfl ?_ (hsignal (by simp [ConsumerPc.visit?]) ?_)
        · rw [hc]
          exact (facing_away (due_bits_other hother)).trans (facing_away due_word).symm
        · intro _ _ _ i hp _ heq
          rw [hc] at heq
          obtain ⟨-, rfl, -, rfl⟩ := by simpa using heq
          exact hother i hp rfl
  | slotsDone hc hle =>
      refine hstep'.keep rfl ?_ (hsignal (by simp [ConsumerPc.visit?]) (by simp [hc]))
      rw [hc]
      exact (facing_away due_afterRegistry).trans (facing_away due_slot).symm
  | wordsDone hc hle =>
      refine hstep'.keep rfl ?_ (hsignal (by simp [ConsumerPc.visit?]) ?_)
      · rw [hc]
        exact (facing_away due_afterRegistry).trans (facing_away due_word).symm
      · intro _ _ _ i _ hlt heq
        rw [hc] at heq
        obtain ⟨-, -, rfl, rfl⟩ := by simpa using heq
        omega
  | bitsDone hc hzero =>
      refine hstep'.keep rfl ?_ (hsignal (by simp [ConsumerPc.visit?]) (by simp [hc]))
      rw [hc, hzero]
      exact (facing_away due_word).trans (facing_away due_bits_zero).symm
  | bitVisit hc hzero hslot =>
      rename_i round pages words index slot pending
      obtain ⟨rfl, -⟩ := (hown.registry pages).layout.slot_eq hslot
      by_cases hp : p = .pooled pages (index * 64 + pending.ctz.toNat)
      · subst hp
        refine hstep'.begins rfl (.inr ?_) (facing_self ..)
        rw [hc]
        exact if_pos (due_bits_lowest hzero)
      · refine hstep'.keep rfl ?_ (hsignal (by simp [ConsumerPc.visit?, Ne.symm hp]) (by simp [hc]))
        rw [hc, facing_other _ _ _ (Ne.symm hp), ConsumerPc.facing, Cursor.facing, Cursor.facing,
          due_bits_next hzero]
        simp [hp]
  | slotVisit hc hlt hslot =>
      rename_i round pages count index slot
      obtain ⟨rfl, -⟩ := (hown.registry pages).layout.slot_eq hslot
      by_cases hp : p = .pooled pages slot
      · subst hp
        refine hstep'.begins rfl (.inl ?_) (facing_self ..)
        rw [hc]
        exact facing_away due_slot
      · refine hstep'.keep rfl ?_ (hsignal (by simp [ConsumerPc.visit?, Ne.symm hp]) (by simp [hc]))
        rw [hc, facing_other _ _ _ (Ne.symm hp)]
        simp [ConsumerPc.facing, Cursor.facing]
  | passDone hc =>
      rename_i round
      have hfinish : round.finish.facing p = .away ∧ round.finish.visit? = none := by
        cases round with
        | final allDrained => cases allDrained <;> exact ⟨rfl, rfl⟩
        | _ => exact ⟨rfl, rfl⟩
      refine hstep'.keep rfl ?_ (hsignal (by simp [hfinish.2]) (by simp [hc]))
      rw [hc]
      exact hfinish.1.trans (facing_away rfl).symm
  | consume hc hlt hrecord =>
      have hfilled := (List.getElem?_eq_some_iff.mp hrecord).1
      refine hstep'.stays hc hc rfl (fun h => Cell.Step.consume _ h hfilled) rfl rfl rfl rfl rfl ?_
        id (hsignal (by simp [hc, ConsumerPc.visit?]) (by simp [hc]))
      simp only [cell, hc, facing_self]
  | clearEnqueued hc =>
      exact hstep'.stays hc rfl rfl (fun h => Cell.Step.clear _ h) rfl rfl rfl rfl rfl rfl id
        (hsignal (by simp [ConsumerPc.visit?]) (by simp [hc]))
  | remarkWon hc hflag =>
      exact hstep'.stays hc rfl rfl (fun h => Cell.Step.remark _ h hflag) rfl rfl rfl rfl rfl rfl id
        (hsignal (by simp [ConsumerPc.visit?]) (by simp [hc]))
  | markFree hc hretired =>
      exact hstep'.stays hc rfl rfl (fun h => Cell.Step.free _ h) rfl rfl rfl rfl rfl rfl id
        (hsignal (by simp [ConsumerPc.visit?]) (by simp [hc]))
  | remarkLost hc hflag =>
      have hs := hsignal (by simp [ConsumerPc.visit?]) (by simp [hc])
      rw [hc] at hturned
      refine hstep'.leaves hc rfl hturned rfl (fun h => Cell.Step.lose _ h hflag) rfl rfl rfl rfl rfl
        rfl ?_ hs
      rintro rfl
      exact hs
  | notRetired hc hstage hretired =>
      have hs := hsignal (by simp [ConsumerPc.visit?]) (by simp [hc])
      rw [hc] at hturned
      refine hstep'.leaves hc rfl hturned rfl (fun h => Cell.Step.leave _ ?_ ?_) rfl rfl rfl rfl rfl
        rfl ?_ hs
      · rcases hstage with rfl | rfl <;> exact h
      · simpa [cell] using hretired
      · rintro rfl
        exact hs
  | pushFree hc =>
      rename_i round resume q
      have hs := hsignal (by simp [ConsumerPc.visit?]) (by simp [hc])
      refine hstep'.keep ?_ ?_ hs
      · refine load_setProducer ?_
        rintro rfl
        rfl
      · rw [hc] at hturned ⊢
        by_cases hq : q = p
        · subst hq
          exact (facing_away hturned).trans (facing_self round resume .pushFree).symm
        · rw [facing_other _ _ _ hq]
          rfl
  | secondEmpty hc hempty =>
      rename_i round resume q
      have hs := hsignal (by cases q <;> simp [ConsumerPc.visit?, afterDrained]) (by simp [hc])
      by_cases hq : q = p
      · subst hq
        rw [hc] at hturned
        have hlate : s.consumer.facing q = .late := by
          rw [hc]
          exact facing_self ..
        have hdrained : (s.producer q).queue.head = (s.producer q).queue.tail := by
          simpa [Queue.empty] using hempty
        refine .head (Cell.Step.drained _ hlate hdrained) ?_
        cases q with
        | single pages =>
            have hretired : (cell s (.single pages)).retired = false := by
              simp [cell, (hmakings.plain pages).2]
            refine .head (Cell.Step.leave _ rfl hretired) (.single (Cell.Rises.step ?_))
            exact ⟨rfl, rfl, rfl, rfl, rfl, facing_away hturned, hs⟩
        | pooled pages index =>
            refine .single (Cell.Rises.step ?_)
            exact ⟨rfl, rfl, rfl, rfl, rfl, facing_self round resume .isRetired, hs⟩
      · refine hstep'.keep rfl ?_ hs
        rw [hc, facing_other _ _ _ hq]
        cases q with
        | single pages => rfl
        | pooled pages index => exact facing_other _ _ _ hq
  | repost hc hstage =>
      rename_i round resume q stage
      have hs := hsignal (by simp [ConsumerPc.visit?]) (by simp [hc])
      have hproducer := congrFun (State.publishReadyBit_producer (s := s) (p := q)) p
      have hsignalled : q = p → Signalled { s.publishReadyBit q with
          consumer := .pass round.notDrained resume } q := by
        rintro rfl
        cases q with
        | single pages => exact alert_notDrained rfl
        | pooled pages index => exact (readyBit_publish hown hmakings hmade).mpr (.inr rfl)
      rw [hc] at hturned
      rcases hstage with rfl | rfl
      · exact hstep'.leaves hc rfl hturned hproducer (fun h => Cell.Step.postpone _ h) rfl rfl rfl rfl
          rfl rfl (fun hq _ => hsignalled hq) hs
      · exact hstep'.leaves hc rfl hturned hproducer (fun h => Cell.Step.repost _ h) rfl rfl rfl rfl
          rfl rfl (fun hq _ => hsignalled hq) hs

/-! ## The handshake invariant of every producer -/

theorem cell_untouched (h : (s.producer p).Untouched) : (cell s p).Inv :=
  .unused (congrArg Queue.tail h.queue) (congrArg Queue.head h.queue) h.enqueued
    (by simp [cell, h.lifecycle])

theorem cellInv_step {a : Action} (hown : Ownership conf s) (hmakings : Makings conf s)
    (htickets : TicketSound s) (hpass : PassSound s) (hinv : (cell s p).Inv)
    (hstep : step conf s a = some s') : (cell s' p).Inv := by
  rcases step_cases hstep with ⟨t, hthread⟩ | hconsumer
  · exact hinv.steps (hthread.reaches hown hmakings htickets p)
  · by_cases hmade : Made conf s p
    · exact hinv.steps (hconsumer.reaches hown hmakings hpass hmade)
    · refine cell_untouched (hconsumer.untouched (hmakings.untouched p hmade) fun stage hv => ?_)
      exact hmade (made_of_visiting hown hmakings hv)

theorem cellInv_of_reachable (h : (handoff conf).Reachable s) (p : ProducerId) :
    (cell s p).Inv := by
  refine h.invariant (I := fun s => (cell s p).Inv) ?_ fun s a s' hs hinv hstep => ?_
  · rintro _ ⟨level, rfl⟩
    exact cell_untouched ⟨rfl, rfl, rfl⟩
  · exact cellInv_step (ownership_of_reachable hs) (makings_of_reachable hs)
      (ticketSound_of_reachable hs) (passSound_of_reachable hs) hinv hstep

end Unlog.Handoff
