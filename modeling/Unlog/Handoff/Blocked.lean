import Unlog.Handoff.Cells

/-! # A sleeping consumer has nothing to do -/

namespace Unlog.Handoff

open Library

variable {conf : Sealed} {s s' : State} {t : ℕ} {seq : ℕ}

/-- A flush or a stop that was requested after the consumer looked has notified it. -/
structure RequestsSound (s : State) : Prop where
  flush : ∀ seq, ((∃ allDrained, s.consumer = .readStop seq allDrained) ∨ s.consumer = .wait seq) →
    s.flushRequested = s.flushCompleted ∨ Notified s seq
  stop : ∀ seq, s.consumer = .wait seq → s.stopRequested = true → Notified s seq

/-- Who requests a flush or the stop wakes the consumer next. -/
theorem ThreadStep.requests (hstep : ThreadStep conf s t s') :
    (s'.flushRequested = s.flushRequested ∨ Waking s') ∧
      (s'.stopRequested = true → s.stopRequested = true ∨ Waking s') := by
  cases hstep with
  | flushRequest => exact ⟨.inr ⟨t, _, State.setPc_pc_self _⟩, .inl⟩
  | requestStop => exact ⟨.inl rfl, fun _ => .inr ⟨t, _, State.setPc_pc_self _⟩⟩
  | publishBit | publishRetired => exact ⟨.inr ⟨t, _, State.setPc_pc_self _⟩, fun _ =>
      .inr ⟨t, _, State.setPc_pc_self _⟩⟩
  | wake => rename_i waker _; cases waker <;> exact ⟨.inl rfl, .inl⟩
  | joined => exact ⟨.inl rfl, nofun⟩
  | _ => exact ⟨.inl rfl, .inl⟩

theorem RequestsSound.thread (h : RequestsSound s) (htickets : TicketSound s)
    (hstep : ThreadStep conf s t s') : RequestsSound s' := by
  obtain ⟨hflush, hstop⟩ := hstep.requests
  have hcompleted := hstep.served_eq.2
  have hticket : ∀ seq, ((∃ allDrained, s.consumer = .readStop seq allDrained) ∨
      s.consumer = .wait seq) → seq ≤ s.wakeSeq := by
    rintro seq (⟨allDrained, hc⟩ | hc)
    · exact htickets seq allDrained (by rw [hc]; rfl)
    · exact htickets seq true (by rw [hc]; rfl)
  constructor
  · intro seq hc
    rw [hstep.consumer_eq] at hc
    rcases hflush with hflush | hwaking
    · rw [hflush, hcompleted]
      exact (h.flush seq hc).imp_right (hstep.notified (hticket seq hc))
    · exact .inr (.inr hwaking)
  · intro seq hc hrequested
    rw [hstep.consumer_eq] at hc
    rcases hstop hrequested with hrequested | hwaking
    · exact hstep.notified (hticket seq (.inr hc)) (h.stop seq hc hrequested)
    · exact .inr hwaking

theorem RequestsSound.consumer (h : RequestsSound s) (hstep : ConsumerStep conf s s') :
    RequestsSound s' := by
  cases hstep with
  | noFlush hc hrequested => exact ⟨fun _ _ => .inl hrequested, nofun⟩
  | sleep hc hstop =>
      refine ⟨?_, fun _ _ hrequested => absurd (hstop.symm.trans hrequested) nofun⟩
      rintro seq (⟨allDrained, hc'⟩ | hc')
      · contradiction
      · obtain rfl := ConsumerPc.wait.inj hc'
        exact h.flush _ (.inl ⟨true, hc⟩)
  | consume => exact ⟨h.flush, h.stop⟩
  | secondEmpty =>
      rename_i p _ _
      cases p <;> exact ⟨by simp [afterDrained], by simp [afterDrained]⟩
  | passDone =>
      rename_i round _
      cases round with
      | final allDrained =>
          cases allDrained <;> exact ⟨by simp [Round.finish], by simp [Round.finish]⟩
      | _ => exact ⟨by simp [Round.finish], by simp [Round.finish]⟩
  | _ => exact ⟨by simp, by simp⟩

theorem requestsSound_of_reachable (h : (handoff conf).Reachable s) : RequestsSound s := by
  refine h.invariant ?_ fun s a s' hs hr hstep => ?_
  · rintro _ ⟨level, rfl⟩
    exact ⟨by simp [State.started], by simp [State.started]⟩
  · rcases step_cases hstep with ⟨t, hthread⟩ | hconsumer
    · exact hr.thread (ticketSound_of_reachable hs) hthread
    · exact hr.consumer hconsumer

/-! ## No stranded record, no lost wake-up -/

/-- Between raising a condition (a record, a retirement, a request) and bumping `wake_seq`. -/
def ThreadPc.announcing : ThreadPc → Bool
  | .countEmitted _ _ | .countTruncated _ | .markEnqueued _ | .publishBit _ | .publishRetired _ _
  | .wake _ => true
  | _ => false

/-- Nothing is left to do for the consumer, and the next record will notify it. -/
structure Settled (s : State) : Prop where
  drained : ∀ p, (s.producer p).queue.empty = true
  unmarked : ∀ p, (s.producer p).enqueued = false
  reclaimed : ∀ p, (s.producer p).lifecycle ≠ .retired
  cleared : ∀ pages word, (s.registry pages).activeWords word = 0
  flushed : s.flushRequested = s.flushCompleted
  unstopped : s.stopRequested = false

theorem phase_of_not_announcing {pc : ThreadPc} (h : pc.announcing = false) (p : ProducerId) :
    pc.phase p = .rest := by
  cases pc <;> first | rfl | simp [ThreadPc.announcing] at h

theorem not_notified_of_blocked (hticket : s.wakeSeq = seq)
    (hquiet : ∀ t, (s.pc t).announcing = false) : ¬ Notified s seq := by
  rintro (hlt | ⟨t, waker, hpc⟩)
  · omega
  · have hannouncing := hquiet t
    rw [hpc] at hannouncing
    contradiction

theorem not_alert_of_blocked (hwait : s.consumer = .wait seq) (hticket : s.wakeSeq = seq)
    (hquiet : ∀ t, (s.pc t).announcing = false) (p : ProducerId) : ¬ Alert s p := by
  intro hp
  rcases hp seq true (by rw [hwait]; rfl) with hfalse | hahead | hn
  · contradiction
  · rw [hwait] at hahead
    exact hahead
  · exact not_notified_of_blocked hticket hquiet hn

/-- A blocked consumer has left no record and no retirement of a producer behind. -/
theorem cell_of_blocked (h : (handoff conf).Reachable s) (hwait : s.consumer = .wait seq)
    (hticket : s.wakeSeq = seq) (hquiet : ∀ t, (s.pc t).announcing = false) (p : ProducerId) :
    (s.producer p).queue.head = (s.producer p).queue.tail ∧
      (s.producer p).enqueued = false ∧ (s.producer p).lifecycle ≠ .retired := by
  have halert := not_alert_of_blocked hwait hticket hquiet
  have hready := readySound_of_reachable h
  obtain ⟨hempty, hmark, hretired⟩ := (cellInv_of_reachable h p).settled
    (fun t => phase_of_not_announcing (hquiet t) p)
    (by
      cases p with
      | single pages => exact halert _
      | pooled pages index => exact fun hbit => halert _ (hready.alert pages index hbit))
    (by simp [cell, hwait, ConsumerPc.facing])
  exact ⟨hempty, hmark, by simpa [cell] using hretired⟩

/-- A blocked consumer has left no record, no retirement and no request behind. -/
theorem settled_of_blocked (h : (handoff conf).Reachable s) (hwait : s.consumer = .wait seq)
    (hticket : s.wakeSeq = seq) (hquiet : ∀ t, (s.pc t).announcing = false) : Settled s := by
  have hnotified := not_notified_of_blocked hticket hquiet
  have hcell := cell_of_blocked h hwait hticket hquiet
  have hready := readySound_of_reachable h
  have hrequests := requestsSound_of_reachable h
  have hbits : ∀ pages i, ¬ ReadyBit s pages i := fun pages i hbit =>
    not_alert_of_blocked hwait hticket hquiet _ (hready.alert pages i hbit)
  exact
    { drained := fun p => by simpa [Queue.empty] using (hcell p).1
      unmarked := fun p => (hcell p).2.1
      reclaimed := fun p => (hcell p).2.2
      cleared := fun pages word => by
        refine BitVec.eq_of_getLsbD_eq fun j hj => ?_
        have hbit := hbits pages (word * 64 + j)
        rw [ReadyBit, show (word * 64 + j) / 64 = word by omega,
          show (word * 64 + j) % 64 = j by omega] at hbit
        simpa using hbit
      flushed := (hrequests.flush seq (.inr hwait)).resolve_right hnotified
      unstopped := by
        by_contra hstop
        exact hnotified (hrequests.stop seq hwait (by simpa using hstop)) }

/-- A thread logs its first record of the demo runtime and exits. -/
def demoLogged : List Action :=
  [.call 0 (.logUnchecked 0), .thread 0, .thread 0, .produce 0 .written, .thread 0, .thread 0,
    .thread 0, .thread 0, .call 0 (.release .normal), .thread 0, .thread 0, .thread 0]

/-- The consumer then runs until it sleeps. -/
def demoExit : List Action := demoLogged ++ List.replicate 22 .consumer

/-- The consumer has served the exited thread and sleeps. -/
theorem settled_after_exit :
    ∃ s, (handoff demo).run (.started demo fun _ => .info) demoExit = some s ∧
      s.consumer = .wait 2 ∧ Settled s := by
  have hrun : ((handoff demo).run (.started demo fun _ => .info) demoExit).map
      (fun s => (s.consumer, s.wakeSeq, s.pc 0)) = some (.wait 2, 2, .idle) := by
    decide +kernel
  obtain ⟨s, hs, hfacts⟩ := Option.map_eq_some_iff.mp hrun
  simp only [Prod.mk.injEq] at hfacts
  obtain ⟨hwait, hticket, hidle⟩ := hfacts
  have hquiet : ∀ t, (s.pc t).announcing = false := by
    intro t
    by_cases ht : t = 0
    · rw [ht, hidle]
      rfl
    · rw [run_pc_of_ne hs (by simp [demoExit, demoLogged, Action.thread?, Ne.symm ht])]
      rfl
  exact ⟨s, hs, hwait, settled_of_blocked (.run (.initial ⟨_, rfl⟩) hs) hwait hticket hquiet⟩

end Unlog.Handoff
