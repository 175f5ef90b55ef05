import Unlog.Handoff.Flushers
import Unlog.Handoff.Idle
import Unlog.Handoff.Scan
import Unlog.Library.Countdown

/-! # How long a flush waits

Each round of the consumer is over after a number of accesses that only the configuration bounds,
and the second round after a request answers it at the latest. -/

namespace Unlog.Handoff

open Library

variable {conf : Sealed} {s s' : State} {t n : ℕ} {pages : Pages}

/-! ## Bounds -/

section Bounds

variable (conf : Sealed)

/-- One registry in `drain_flush`, with every producer made. -/
def Sealed.slotSteps (pages : Pages) : ℕ := conf.maxProducers * (conf.visitSteps pages + 1) + 2

/-- One pass of `drain_flush`. -/
def Sealed.flushSteps : ℕ :=
  conf.visitSteps .normal + 1 + (conf.visitSteps .huge + 1 +
    (conf.slotSteps .normal + (conf.slotSteps .huge + 1)))

/-- What comes after a registry in `drain_flush`. -/
def Sealed.slotRest : Pages → ℕ
  | .normal => conf.slotSteps .huge + 1
  | .huge => 1

/-- The accesses a pass over the slots has left at most. -/
def Cursor.flushLeft : Cursor → ℕ
  | .single .normal => conf.flushSteps
  | .single .huge =>
    conf.visitSteps .huge + 1 + (conf.slotSteps .normal + (conf.slotSteps .huge + 1))
  | .count pages => conf.slotSteps pages + conf.slotRest pages
  | .slot pages bound index =>
    (bound - index) * (conf.visitSteps pages + 1) + 1 + conf.slotRest pages
  | .word _ _ _ | .bits _ _ _ _ => 0
  | .done => 1

def Round.leftAt (round : Round) (cursor : Cursor) : ℕ :=
  match round with
  | .flush _ => cursor.flushLeft conf
  | _ => cursor.left conf

/-- The accesses until the pass that is under way is over, at most. -/
def State.walkLeft (s : State) : ℕ :=
  match s.consumer with
  | .pass round cursor => round.leftAt conf cursor
  | .visit round resume p stage =>
    stage.left conf p (s.producer p).queue + round.leftAt conf resume
  | _ => 0

/-- A flush pass, the sinks and the store of `flush_completed`. -/
def Sealed.serveSteps : ℕ := conf.flushSteps + 2

/-- From the sample of a ticket to the end of the flush that its round finds requested. -/
def Sealed.roundSteps : ℕ := 1 + conf.passSteps + 1 + conf.serveSteps

/-- What comes after the pass of a round, until the request `n` is answered. -/
def Round.answer (n : ℕ) : Round → ℕ
  | .ready _ _ => 1 + conf.serveSteps
  | .flush requested => if n ≤ requested then 2 else 2 + conf.roundSteps
  | .final _ => 0

/-- The accesses of the consumer until it has answered the request `n`, at most. -/
def State.service (n : ℕ) (s : State) : ℕ :=
  match s.consumer with
  | .sampleTicket => conf.roundSteps
  | .pass round _ => s.walkLeft conf + round.answer conf n
  | .visit round _ _ _ => s.walkLeft conf + round.answer conf n
  | .readRequested _ _ => 1 + conf.serveSteps
  | .flushSinks requested => if n ≤ requested then 2 else 2 + conf.roundSteps
  | .completeFlush requested => if n ≤ requested then 1 else 1 + conf.roundSteps
  | .readStop _ _ => 2 + conf.roundSteps
  | .wait _ => 1 + conf.roundSteps
  | .finalFlush | .ended => 0

/-- A flush pass that came too early, and a whole round. -/
def Sealed.serviceSteps : ℕ := conf.serveSteps + conf.roundSteps

end Bounds

theorem leftAt_notDrained (round : Round) (cursor : Cursor) :
    round.notDrained.leftAt conf cursor = round.leftAt conf cursor := by
  cases round <;> rfl

theorem answer_notDrained (round : Round) :
    round.notDrained.answer conf n = round.answer conf n := by
  cases round <;> rfl

theorem leftAt_single (round : Round) : round.leftAt conf (.single pages) =
    conf.visitSteps pages + 1 + round.leftAt conf (Cursor.afterSingle pages) := by
  cases round <;> cases pages <;> rfl

theorem leftAt_ready {round : Round} (h : ∀ requested, round ≠ .flush requested)
    (cursor : Cursor) : round.leftAt conf cursor = cursor.left conf := by
  cases round with
  | flush requested => exact absurd rfl (h requested)
  | _ => rfl

theorem flushLeft_afterRegistry (pages : Pages) :
    (Cursor.afterRegistry pages).flushLeft conf = conf.slotRest pages := by
  cases pages <;> rfl

theorem flushLeft_slots {count : ℕ} (h : count ≤ conf.maxProducers) :
    (Cursor.slot pages count 0).flushLeft conf < (Cursor.count pages).flushLeft conf := by
  have hsteps := Nat.mul_le_mul_right (conf.visitSteps pages + 1) h
  simp only [Cursor.flushLeft, Sealed.slotSteps, Nat.sub_zero]
  omega

theorem flushLeft_nextSlot {count index : ℕ} (h : index < count) :
    conf.visitSteps pages + (Cursor.slot pages count (index + 1)).flushLeft conf <
      (Cursor.slot pages count index).flushLeft conf := by
  have hcount : count - index = count - (index + 1) + 1 := by omega
  simp only [Cursor.flushLeft, hcount, Nat.add_mul, Nat.one_mul]
  omega

/-! ## A pass -/

/-- The pass that the consumer is in. -/
def ConsumerPc.round? : ConsumerPc → Option Round
  | .pass round _ => some round
  | .visit round _ _ _ => some round
  | _ => none

/-- Each access of a visit or of a pass brings its end nearer, or is the last one. -/
theorem ConsumerStep.walk (hown : Ownership conf s) (hpass : PassSound s) (hfits : Fits conf s)
    (hstep : ConsumerStep conf s s') {round : Round} (hround : s.consumer.round? = some round) :
    s'.walkLeft conf < s.walkLeft conf ∧
        (s'.consumer.round? = some round ∨ s'.consumer.round? = some round.notDrained) ∨
      s.consumer = .pass round .done ∧ s'.consumer = round.finish := by
  cases hstep with
  | passDone hc =>
      rw [hc] at hround
      obtain rfl := Option.some.inj hround
      exact .inr ⟨hc, rfl⟩
  | singleVisit hc =>
      rw [hc] at hround
      refine .inl ⟨?_, .inl hround⟩
      simp only [State.walkLeft, hc, leftAt_single, Stage.left, ProducerId.pages]
      omega
  | singleSkip hc =>
      rw [hc] at hround
      refine .inl ⟨?_, .inl hround⟩
      simp only [State.walkLeft, hc, leftAt_single]
      omega
  | countFlush hc =>
      rename_i pages
      rw [hc] at hround
      refine .inl ⟨?_, .inl hround⟩
      simp only [State.walkLeft, hc]
      exact flushLeft_slots (hown.registry pages).layout.le_max
  | countWords hc hready =>
      rename_i pages
      rw [hc] at hround
      refine .inl ⟨?_, .inl hround⟩
      simp only [State.walkLeft, hc, leftAt_ready hready]
      exact left_words (hown.registry pages).layout.le_max
  | takeWord hc hlt =>
      have hready := hpass.suits
      rw [hc] at hround hready
      refine .inl ⟨?_, .inl hround⟩
      simp only [State.walkLeft, hc, leftAt_ready hready]
      exact left_bits hlt
  | wordsDone hc =>
      have hready := hpass.suits
      rw [hc] at hround hready
      refine .inl ⟨?_, .inl hround⟩
      simp only [State.walkLeft, hc, leftAt_ready hready, left_afterRegistry]
      simp only [Cursor.left]
      omega
  | bitsDone hc =>
      have hready := hpass.suits
      rw [hc] at hround hready
      refine .inl ⟨?_, .inl hround⟩
      simp only [State.walkLeft, hc, leftAt_ready hready]
      exact left_nextWord
  | bitVisit hc hzero =>
      have hready := hpass.suits
      rw [hc] at hround hready
      refine .inl ⟨?_, .inl hround⟩
      simp only [State.walkLeft, hc, leftAt_ready hready]
      exact left_dropBit hzero
  | slotVisit hc hlt =>
      have hsuits := hpass.suits
      rw [hc] at hround hsuits
      obtain ⟨requested, rfl⟩ := hsuits
      refine .inl ⟨?_, .inl hround⟩
      simp only [State.walkLeft, hc]
      exact flushLeft_nextSlot hlt
  | slotsDone hc =>
      have hsuits := hpass.suits
      rw [hc] at hround hsuits
      obtain ⟨requested, rfl⟩ := hsuits
      refine .inl ⟨?_, .inl hround⟩
      simp only [State.walkLeft, hc, Round.leftAt, flushLeft_afterRegistry]
      simp only [Cursor.flushLeft]
      omega
  | readTail hc =>
      rename_i p
      have hroom := hfits p
      rw [hc] at hround
      refine .inl ⟨?_, .inl hround⟩
      simp only [State.walkLeft, hc, Stage.left, Sealed.visitSteps]
      omega
  | consume hc hlt =>
      refine .inl ⟨?_, .inl hround⟩
      simp only [State.walkLeft, State.setProducer_consumer, hc, Stage.left,
        State.setProducer_producer_self]
      omega
  | secondEmpty hc =>
      rename_i p _
      rw [hc] at hround
      refine .inl ⟨?_, .inl ?_⟩
      · cases p <;> simp only [State.walkLeft, hc, afterDrained, Stage.left] <;> omega
      · cases p <;> exact hround
  | repost hc hstage =>
      rw [hc] at hround
      obtain rfl := Option.some.inj hround
      refine .inl ⟨?_, .inr rfl⟩
      rcases hstage with rfl | rfl <;>
        simp only [State.walkLeft, hc, Stage.left, leftAt_notDrained] <;> omega
  | remarkLost hc =>
      rw [hc] at hround
      obtain rfl := Option.some.inj hround
      refine .inl ⟨?_, .inr rfl⟩
      simp only [State.walkLeft, hc, Stage.left, leftAt_notDrained]
      omega
  | notRetired hc hstage =>
      rw [hc] at hround
      refine .inl ⟨?_, .inl hround⟩
      rcases hstage with rfl | rfl <;> simp only [State.walkLeft, hc, Stage.left] <;> omega
  | consumed hc | firstEmpty hc | firstFilled hc | clearEnqueued hc | secondFilled hc
  | remarkWon hc | isRetired hc | markFree hc | pushFree hc =>
      rw [hc] at hround
      refine .inl ⟨?_, .inl hround⟩
      simp only [State.walkLeft, hc, Stage.left]
      omega
  | sampleTicket hc | startFlush hc | noFlush hc | flushSinks hc | completeFlush hc | stop hc
  | sleep hc | again hc | awake hc | finalFlush hc =>
      rw [hc] at hround
      contradiction

/-- A thread makes a pass no longer. -/
theorem ThreadStep.walkLeft_eq (hstep : ThreadStep conf s t s') :
    s'.walkLeft conf = s.walkLeft conf := by
  rw [State.walkLeft, State.walkLeft, hstep.consumer_eq]
  cases s.consumer with
  | visit round resume p stage =>
      cases stage <;> simp only [Stage.left, hstep.head_eq]
  | _ => rfl

/-- The length of a whole pass. -/
def Round.steps (conf : Sealed) : Round → ℕ
  | .flush _ => conf.flushSteps
  | _ => conf.passSteps

/-- No pass is longer than a whole one. -/
def WalkFits (conf : Sealed) (s : State) : Prop :=
  ∀ round, s.consumer.round? = some round → s.walkLeft conf ≤ round.steps conf

theorem walkFits_first {round : Round} (h : s.consumer = .pass round Cursor.first) :
    WalkFits conf s := by
  intro round' hround
  rw [h] at hround
  obtain rfl := Option.some.inj hround
  rw [State.walkLeft, h]
  cases round <;> exact Nat.le_refl _

theorem steps_notDrained (round : Round) : round.notDrained.steps conf = round.steps conf := by
  cases round <;> rfl

theorem walkFits_of_none (h : s.consumer.round? = none) : WalkFits conf s :=
  fun _ hround => absurd (h.symm.trans hround) nofun

/-- A pass is entered at its beginning. -/
theorem ConsumerStep.entered (hstep : ConsumerStep conf s s') (hround : s.consumer.round? = none) :
    s'.consumer.round? = none ∨ ∃ round, s'.consumer = .pass round Cursor.first := by
  cases hstep with
  | sampleTicket | startFlush | stop => exact .inr ⟨_, rfl⟩
  | noFlush | flushSinks | completeFlush | sleep | again | awake | finalFlush => exact .inl rfl
  | consume hc | singleVisit hc | singleSkip hc | countFlush hc | countWords hc | takeWord hc
  | wordsDone hc | bitsDone hc | bitVisit hc | slotVisit hc | slotsDone hc | readTail hc
  | consumed hc | firstEmpty hc | firstFilled hc | clearEnqueued hc | secondEmpty hc
  | secondFilled hc | remarkWon hc | remarkLost hc | repost hc | isRetired hc | markFree hc
  | notRetired hc | pushFree hc | passDone hc =>
      rw [hc] at hround
      contradiction

theorem walkFits_of_reachable (h : (handoff conf).Reachable s) : WalkFits conf s := by
  refine h.invariant ?_ fun s a s' hs hw hstep => ?_
  · rintro _ ⟨level, rfl⟩
    exact walkFits_of_none rfl
  · rcases step_cases hstep with ⟨t, hthread⟩ | hconsumer
    · intro round hround
      rw [hthread.walkLeft_eq]
      exact hw round (hthread.consumer_eq ▸ hround)
    · cases hc : s.consumer.round? with
      | none =>
          rcases hconsumer.entered hc with hnone | ⟨round, hfirst⟩
          · exact walkFits_of_none hnone
          · exact walkFits_first hfirst
      | some round =>
          rcases hconsumer.walk (ownership_of_reachable hs) (passSound_of_reachable hs)
            (fits_of_reachable hs) hc with ⟨hlt, hround | hround⟩ | ⟨-, hfinish⟩
          · intro round' hround'
            obtain rfl := Option.some.inj (hround.symm.trans hround')
            exact (hlt.le).trans (hw _ hc)
          · intro round' hround'
            obtain rfl := Option.some.inj (hround.symm.trans hround')
            rw [steps_notDrained]
            exact (hlt.le).trans (hw _ hc)
          · cases round with
            | final allDrained =>
                cases allDrained with
                | true => exact walkFits_of_none (by rw [hfinish]; rfl)
                | false => exact walkFits_first hfinish
            | _ => exact walkFits_of_none (by rw [hfinish]; rfl)

/-! ## The consumer is never stuck -/

/-- A flush pass looks at no slot that was not made when it read the count. -/
def SlotsSound (s : State) : Prop :=
  ∀ pages bound index, s.consumer.cursor = .slot pages bound index →
    bound ≤ (s.registry pages).count

/-- The bound of a walk over the slots is the count it read. -/
theorem ConsumerStep.slot_bound (hstep : ConsumerStep conf s s') {bound index : ℕ}
    (h : s'.consumer.cursor = .slot pages bound index) :
    (∃ before, s.consumer.cursor = .slot pages bound before) ∨
      bound = (s.registry pages).count := by
  cases hstep with
  | countFlush hc =>
      obtain ⟨rfl, rfl, -⟩ := Cursor.slot.inj h
      exact .inr rfl
  | slotVisit hc =>
      obtain ⟨rfl, rfl, -⟩ := Cursor.slot.inj h
      exact .inl ⟨_, by rw [hc]; rfl⟩
  | consume => exact .inl ⟨index, h⟩
  | secondEmpty hc =>
      rename_i p _
      rw [hc]
      cases p <;> exact .inl ⟨index, h⟩
  | readTail hc | consumed hc | firstEmpty hc | firstFilled hc | clearEnqueued hc
  | secondFilled hc | remarkWon hc | remarkLost hc | repost hc | isRetired hc | markFree hc
  | notRetired hc | pushFree hc =>
      rw [hc]
      exact .inl ⟨index, h⟩
  | singleVisit | singleSkip =>
      rename_i other _ _
      cases other <;> contradiction
  | wordsDone | slotsDone =>
      rename_i other _ _ _ _
      cases other <;> contradiction
  | passDone =>
      rename_i round _
      cases round with
      | final allDrained => cases allDrained <;> contradiction
      | _ => contradiction
  | _ => contradiction

theorem slotsSound_of_reachable (h : (handoff conf).Reachable s) : SlotsSound s := by
  refine h.invariant ?_ fun s a s' hs hslots hstep pages bound index hcursor => ?_
  · rintro _ ⟨level, rfl⟩
    exact nofun
  · refine le_trans ?_ (count_le (ownership_of_reachable hs) hstep pages)
    rcases step_cases hstep with ⟨t, hthread⟩ | hconsumer
    · exact hslots pages bound index (hthread.consumer_eq ▸ hcursor)
    · rcases hconsumer.slot_bound hcursor with ⟨before, hbefore⟩ | rfl
      · exact hslots pages bound before hbefore
      · exact le_rfl

theorem passReady_of_reachable (h : (handoff conf).Reachable s) : PassReady s := by
  refine h.invariant ?_ fun s a s' hs hready hstep => ?_
  · rintro _ ⟨level, rfl⟩
    exact ⟨nofun, nofun⟩
  · exact (drainBase_step
      { ownership := ownership_of_reachable hs
        makings := makings_of_reachable hs
        tickets := ticketSound_of_reachable hs
        pass := passSound_of_reachable hs
        ledger := ledger_of_reachable hs
        cells := cellInv_of_reachable hs
        range := (readySound_of_reachable hs).range
        fits := fits_of_reachable hs
        ready := hready } hstep).ready

/-- Whatever the threads do, the consumer has a next access unless it sleeps or has ended. -/
theorem consumer_ready (h : (handoff conf).Reachable s) (hended : s.consumer ≠ .ended)
    (hawake : ∀ seq, s.consumer = .wait seq → s.wakeSeq ≠ seq) :
    (step conf s .consumer).isSome = true := by
  have hlayout := fun pages => ((ownership_of_reachable h).registry pages).layout
  have hready := passReady_of_reachable h
  have hslots := slotsSound_of_reachable h
  change (consumerStep conf s).isSome = true
  unfold consumerStep
  cases hc : s.consumer with
  | pass round cursor =>
      cases cursor with
      | single pages | word pages words index =>
          simp only [passStep]
          split <;> rfl
      | count pages => cases round <;> rfl
      | bits pages words index pending =>
          simp only [passStep]
          split
          · rfl
          · rename_i hzero
            have hdue : (Cursor.bits pages words index pending).due
                (.pooled pages (index * 64 + pending.ctz.toNat)) = true := due_bits_lowest hzero
            have hlt : index * 64 + pending.ctz.toNat < (s.registry pages).count :=
              hready.due pages _ (by rw [hc]; exact hdue)
            rw [(hlayout pages).slots_eq, if_pos hlt]
            rfl
      | slot pages bound index =>
          simp only [passStep]
          split
          · rename_i hlt
            have hle := hslots pages bound index (by rw [hc]; rfl)
            rw [(hlayout pages).slots_eq, if_pos (Nat.lt_of_lt_of_le hlt hle)]
            rfl
          · rfl
      | done => rfl
  | visit round resume p stage =>
      refine visitStep_isSome ?_
      rintro tail rfl
      exact hready.snapshot round resume p tail hc
  | wait seq =>
      simp only [if_neg (hawake seq hc)]
      rfl
  | ended => exact absurd hc hended
  | _ => rfl

/-! ## The service of a request -/

/-- A request that is outstanding keeps the consumer in its loop. -/
structure Outstanding (s : State) (t n : ℕ) : Prop where
  target : ∃ before, (s.pc t).target? = some (n, before)
  unanswered : s.flushCompleted < n

theorem Outstanding.not_halting (h : Outstanding s t n) (hs : (handoff conf).Reachable s) :
    ¬ s.Halting := by
  intro hhalting
  obtain ⟨before, htarget⟩ := h.target
  have hgone := (flushersSound_of_reachable hs).gone hhalting t
  rw [letIn_of_target? htarget] at hgone
  contradiction

/-- Each access of the consumer brings the answer nearer, or gives it. -/
theorem ConsumerStep.service_lt (hs : (handoff conf).Reachable s) (h : Outstanding s t n)
    (hstep : ConsumerStep conf s s') :
    n ≤ s'.flushCompleted ∨ s'.service conf n < s.service conf n := by
  have hnot := h.not_halting hs
  obtain ⟨before, htarget⟩ := h.target
  have hle := ((flushSound_of_reachable hs).served t n before htarget).1
  have hopen := h.unanswered
  cases hround : s.consumer.round? with
  | some round =>
      refine .inr ?_
      have hservice : s.service conf n = s.walkLeft conf + round.answer conf n := by
        cases hc : s.consumer with
        | pass | visit =>
            rw [hc] at hround
            obtain rfl := Option.some.inj hround
            simp only [State.service, hc]
        | _ =>
            rw [hc] at hround
            contradiction
      have hservice' : ∀ round', s'.consumer.round? = some round' →
          s'.service conf n = s'.walkLeft conf + round'.answer conf n := by
        intro round' hround'
        cases hc : s'.consumer with
        | pass | visit =>
            rw [hc] at hround'
            obtain rfl := Option.some.inj hround'
            simp only [State.service, hc]
        | _ =>
            rw [hc] at hround'
            contradiction
      rcases hstep.walk (ownership_of_reachable hs) (passSound_of_reachable hs)
        (fits_of_reachable hs) hround with ⟨hlt, hround' | hround'⟩ | ⟨hc, hfinish⟩
      · rw [hservice, hservice' _ hround']
        omega
      · rw [hservice, hservice' _ hround', answer_notDrained]
        omega
      · rw [hservice]
        have hwalk : s.walkLeft conf = 1 := by
          simp only [State.walkLeft, hc]
          cases round <;> rfl
        cases round with
        | ready => simp only [State.service, hfinish, Round.finish, hwalk, Round.answer]; omega
        | flush requested =>
            simp only [State.service, hfinish, Round.finish, hwalk, Round.answer]
            omega
        | final allDrained =>
            exact absurd (.inr (.inl (by rw [hc]; rfl))) hnot
  | none =>
      cases hstep with
      | completeFlush hc =>
          rename_i requested
          by_cases hn : n ≤ requested
          · exact .inl hn
          · refine .inr ?_
            simp only [State.service, hc, if_neg hn]
            omega
      | flushSinks hc =>
          refine .inr ?_
          simp only [State.service, hc]
          split <;> omega
      | startFlush hc =>
          refine .inr ?_
          simp only [State.service, hc, State.walkLeft, Round.answer, if_pos hle]
          have hfirst : (Round.flush s.flushRequested).leftAt conf Cursor.first =
            conf.flushSteps := rfl
          rw [hfirst, Sealed.serveSteps]
          omega
      | noFlush hc hrequested => omega
      | sampleTicket hc =>
          refine .inr ?_
          simp only [State.service, hc, State.walkLeft, Round.answer]
          have hfirst : (Round.ready s.wakeSeq true).leftAt conf Cursor.first =
            conf.passSteps := rfl
          rw [hfirst, Sealed.roundSteps]
          omega
      | sleep hc | again hc | awake hc =>
          refine .inr ?_
          simp only [State.service, hc]
          omega
      | stop hc hstop => exact absurd (.inl hstop) hnot
      | finalFlush hc => exact absurd (.inr (.inl (by rw [hc]; rfl))) hnot
      | consume hc | singleVisit hc | singleSkip hc | countFlush hc | countWords hc | takeWord hc
      | wordsDone hc | bitsDone hc | bitVisit hc | slotVisit hc | slotsDone hc | readTail hc
      | consumed hc | firstEmpty hc | firstFilled hc | clearEnqueued hc | secondEmpty hc
      | secondFilled hc | remarkWon hc | remarkLost hc | repost hc | isRetired hc | markFree hc
      | notRetired hc | pushFree hc | passDone hc =>
          rw [hc] at hround
          contradiction

theorem ThreadStep.service_eq (hstep : ThreadStep conf s t s') :
    s'.service conf n = s.service conf n := by
  rw [State.service, State.service, hstep.walkLeft_eq, hstep.consumer_eq]

theorem service_le (h : (handoff conf).Reachable s) : s.service conf n ≤ conf.serviceSteps := by
  have hwalk := walkFits_of_reachable h
  cases hc : s.consumer with
  | pass round cursor | visit round resume p stage =>
      have hle := hwalk round (by rw [hc]; rfl)
      simp only [State.service, hc, Sealed.serviceSteps]
      cases round with
      | ready =>
          simp only [Round.answer, Round.steps, Sealed.roundSteps] at hle ⊢
          omega
      | flush requested =>
          simp only [Round.answer, Round.steps, Sealed.serveSteps] at hle ⊢
          split <;> omega
      | final =>
          simp only [Round.answer, Round.steps, Sealed.roundSteps] at hle ⊢
          omega
  | flushSinks | completeFlush =>
      simp only [State.service, hc, Sealed.serviceSteps, Sealed.serveSteps]
      split <;> omega
  | _ =>
      simp only [State.service, hc, Sealed.serviceSteps, Sealed.serveSteps, Sealed.roundSteps]
      omega

/-! ## A waiting flush -/

/-- The ticket of a consumer that looks at the stop request or sleeps. -/
def ConsumerPc.parking? : ConsumerPc → Option ℕ
  | .readStop seq _ => some seq
  | .wait seq => some seq
  | _ => none

/-- A flush that waits has made the ticket of the consumer old. -/
def Awakened (s : State) : Prop :=
  ∀ t target before, s.pc t = .flushWait target before → s.flushCompleted < target →
    ∀ seq, s.consumer.parking? = some seq → seq < s.wakeSeq

/-- A thread comes to its wait by waking the consumer. -/
theorem ThreadStep.waiting (hstep : ThreadStep conf s t s') {target : ℕ} {before : List RecordId}
    (h : s'.pc t = .flushWait target before) : ∃ waker, s.pc t = .wake waker := by
  have hnext := hstep.next
  rw [h] at hnext
  generalize hpc : s.pc t = pc at hnext
  cases hnext with
  | wakeFlush => exact ⟨_, rfl⟩
  | move hmove => cases hmove

theorem ticket?_of_parking? {consumer : ConsumerPc} {seq : ℕ} (h : consumer.parking? = some seq) :
    ∃ allDrained, consumer.ticket? = some (seq, allDrained) := by
  cases consumer with
  | readStop | wait =>
      obtain rfl := Option.some.inj h
      exact ⟨_, rfl⟩
  | _ => contradiction

theorem ConsumerStep.parked (hstep : ConsumerStep conf s s') {seq : ℕ}
    (h : s'.consumer.parking? = some seq) :
    s.consumer.parking? = some seq ∨ s.flushRequested = s.flushCompleted := by
  cases hstep with
  | noFlush _ hrequested => exact .inr hrequested
  | sleep hc =>
      rw [hc]
      exact .inl h
  | consume hc => exact .inl h
  | secondEmpty =>
      rename_i p _ _
      cases p <;> contradiction
  | passDone =>
      rename_i round _
      cases round with
      | final allDrained => cases allDrained <;> contradiction
      | _ => contradiction
  | _ => contradiction

theorem awakened_of_reachable (h : (handoff conf).Reachable s) : Awakened s := by
  refine h.invariant ?_ fun s a s' hs hawake hstep t target before hpc hlt seq hseq => ?_
  · rintro _ ⟨level, rfl⟩
    exact nofun
  · rcases step_cases hstep with ⟨other, hthread⟩ | hconsumer
    · rw [hthread.consumer_eq] at hseq
      rw [hthread.served_eq.2] at hlt
      obtain ⟨allDrained, hticket⟩ := ticket?_of_parking? hseq
      have hle := ticketSound_of_reachable hs seq allDrained hticket
      by_cases heq : t = other
      · subst heq
        rcases hthread.wakeSeq_eq with ⟨-, hwake⟩ | ⟨hnot, -⟩
        · omega
        · obtain ⟨waker, hwaker⟩ := hthread.waiting hpc
          exact absurd hwaker (hnot waker)
      · rw [hthread.pc_of_ne heq] at hpc
        have hold := hawake t target before hpc hlt seq hseq
        rcases hthread.wakeSeq_eq with ⟨-, hwake⟩ | ⟨-, hwake⟩ <;> omega
    · rw [hconsumer.pc_eq] at hpc
      have hsound := flushSound_of_reachable hs
      have hlt' := Nat.lt_of_le_of_lt (hconsumer.completed_le hsound) hlt
      rw [hconsumer.wakeSeq_eq]
      rcases hconsumer.parked hseq with hold | hrequested
      · exact hawake t target before hpc hlt' seq hold
      · have hle := (hsound.served t target before (by rw [hpc]; rfl)).1
        omega

/-- Nothing blocks the consumer while a flush waits for it. -/
theorem consumer_ready_of_wait (h : (handoff conf).Reachable s) {before : List RecordId}
    (hpc : s.pc t = .flushWait n before) (hlt : s.flushCompleted < n) :
    (step conf s .consumer).isSome = true := by
  have hout : Outstanding s t n := ⟨⟨before, by rw [hpc]; rfl⟩, hlt⟩
  refine consumer_ready h (fun hended => ?_) fun seq hwait => ?_
  · exact hout.not_halting h (.inr (.inl (by rw [hended]; rfl)))
  · have hseq := awakened_of_reachable h t n before hpc hlt seq (by rw [hwait]; rfl)
    omega

/-- A flush stays with its request until it is answered. -/
theorem Outstanding.step (hs : (handoff conf).Reachable s) (h : Outstanding s t n) {a : Action}
    (hstep : Handoff.step conf s a = some s') : n ≤ s'.flushCompleted ∨ Outstanding s' t n := by
  obtain ⟨before, htarget⟩ := h.target
  by_cases hle : n ≤ s'.flushCompleted
  · exact .inl hle
  · refine .inr ⟨⟨before, ?_⟩, by omega⟩
    rcases step_cases hstep with ⟨other, hthread⟩ | hconsumer
    · by_cases heq : t = other
      · subst heq
        have hnext := hthread.next
        generalize hpc : s.pc t = pc at htarget hnext
        generalize s'.pc t = pc' at hnext
        cases hnext with
        | wakeFlush => exact htarget
        | move hmove =>
            cases hmove with
            | flushWait => exact htarget
            | _ => contradiction
        | flushLeave =>
            obtain ⟨rfl, rfl⟩ := Prod.mk.inj (Option.some.inj htarget)
            have hdone := (flushSound_of_reachable hs).leaving t _ _ hpc
            exact absurd hdone (Nat.not_le_of_lt h.unanswered)
        | _ => contradiction
      · rwa [hthread.pc_of_ne heq]
    · rwa [hconsumer.pc_eq]

theorem Outstanding.service_pos (hs : (handoff conf).Reachable s) (h : Outstanding s t n) :
    0 < s.service conf n := by
  have hnot := h.not_halting hs
  cases hc : s.consumer with
  | pass round | visit round =>
      simp only [State.service, hc]
      cases round with
      | final => exact absurd (.inr (.inl (by rw [hc]; rfl))) hnot
      | flush =>
          simp only [Round.answer]
          split <;> omega
      | ready =>
          simp only [Round.answer]
          omega
  | flushSinks | completeFlush =>
      simp only [State.service, hc]
      split <;> omega
  | finalFlush | ended => exact absurd (.inr (.inl (by rw [hc]; rfl))) hnot
  | sampleTicket =>
      simp only [State.service, hc, Sealed.roundSteps]
      omega
  | _ =>
      simp only [State.service, hc]
      omega

/-- The accesses of the consumer count down to the answer. -/
theorem countdown_answer (conf : Sealed) (t n : ℕ) :
    Countdown (handoff conf) (fun _ => True) .consumer (handoff conf).Reachable
      (fun s => n ≤ s.flushCompleted)
      fun k s => Outstanding s t n ∧ s.service conf n ≤ k where
  keeps _ _ _ hs _ hstep := hs.step hstep
  stable s a s' hs hdone _ hstep := by
    have hrun : (handoff conf).run s [a] = some s' :=
      Option.bind_eq_some_iff.mpr ⟨s', hstep, rfl⟩
    exact hdone.trans (run_completed_le hs hrun)
  counts k s s' hs := by
    rintro ⟨hout, hle⟩ hnext
    have hstep : step conf s .consumer = some s' := hnext
    rcases hout.step hs hstep with hdone | hout'
    · exact .inl hdone
    · refine ((consumerStep_cases hstep).service_lt hs hout).imp_right fun hlt => ⟨hout', ?_⟩
      omega
  waits k s a s' hs := by
    rintro ⟨hout, hle⟩ - hne hnext
    have hstep : step conf s a = some s' := hnext
    obtain ⟨other, hthread⟩ := (step_cases_consumer hstep).resolve_right fun hc => hne hc.1
    exact (hout.step hs hstep).imp_right fun hout' => ⟨hout', hthread.service_eq ▸ hle⟩
  positive s hs := by
    rintro ⟨hout, hle⟩
    have hpos := hout.service_pos hs
    omega

/-- How long a flush can wait where a critical section is one access: its request is answered once
the consumer has made `serviceSteps` accesses, whatever the threads do meanwhile, and the consumer
can make them without any thread. -/
structure FlushLatency (conf : Sealed) (s : State) : Prop where
  bounded : ∀ t n before actions s', (s.pc t).target? = some (n, before) →
    (handoff conf).run s actions = some s' → conf.serviceSteps ≤ actions.count .consumer →
    n ≤ s'.flushCompleted
  unblocked : ∀ t n before, s.pc t = .flushWait n before → s.flushCompleted < n →
    (step conf s .consumer).isSome = true
  alone : ∀ t n before, s.pc t = .flushWait n before → ∃ k s', k ≤ conf.serviceSteps ∧
    (handoff conf).run s (List.replicate k .consumer) = some s' ∧ n ≤ s'.flushCompleted

theorem flushLatency_of_reachable (h : (handoff conf).Reachable s) : FlushLatency conf s := by
  have hwaits : ∀ t n before, (s.pc t).target? = some (n, before) → n ≤ s.flushCompleted ∨
      Outstanding s t n ∧ s.service conf n ≤ conf.serviceSteps := by
    intro t n before htarget
    refine (Nat.lt_or_ge s.flushCompleted n).symm.imp_right fun hlt => ?_
    exact ⟨⟨⟨before, htarget⟩, hlt⟩, service_le h⟩
  refine ⟨fun t n before actions s' htarget hrun hcount => ?_,
    fun t n before hpc hlt => consumer_ready_of_wait h hpc hlt, fun t n before hpc => ?_⟩
  · rcases hwaits t n before htarget with hdone | hout
    · exact hdone.trans (run_completed_le h hrun)
    · exact (countdown_answer conf t n).reaches h hout (fun _ _ => trivial) hrun hcount
  · refine (countdown_answer conf t n).alone (J := fun s => s.pc t = .flushWait n before) trivial
      (fun k s hs hpc hout _ => consumer_ready_of_wait hs hpc hout.1.unanswered)
      (fun s s' hpc hstep => ?_) h hpc (hwaits t n before (by rw [hpc]; rfl))
    rw [(consumerStep_cases hstep).pc_eq, hpc]

end Unlog.Handoff
