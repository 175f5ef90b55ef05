import Unlog.Handoff.Flush
import Unlog.Handoff.Shutdown

/-! # The flushers a shutdown waits for

`active_flushers` counts the calls of `flush_backend` that are under way, and none of them that
was let in is left when `destroy_runtime` stops the consumer. -/

namespace Unlog.Handoff

open Library

variable {conf : Sealed} {s s' : State} {t : ℕ}

/-- Counted in `active_flushers`. -/
def ThreadPc.flushing : ThreadPc → Bool
  | .flushLifecycle _ | .flushRefuse | .flushRequest _ | .wake (.flush _ _) | .flushWait _ _
  | .flushLeave _ _ => true
  | _ => false

/-- Past the lifecycle check of `flush_backend`. -/
def ThreadPc.letIn : ThreadPc → Bool
  | .flushRequest _ | .wake (.flush _ _) | .flushWait _ _ | .flushLeave _ _ => true
  | _ => false

/-- Past `wait_for_active_flushers`. -/
def ThreadPc.stopping : ThreadPc → Bool
  | .requestStop _ | .wake (.stop _) | .join _ | .joined _ | .resetSinks _ | .finishDestroy _ =>
    true
  | _ => false

/-- A shutdown has waited for the flushers. -/
def State.Halting (s : State) : Prop :=
  s.stopRequested = true ∨ s.consumer.stopping = true ∨ ∃ t, (s.pc t).stopping = true

structure FlushersSound (s : State) : Prop where
  counted : ∃ inside : Finset ℕ, (∀ t, t ∈ inside ↔ (s.pc t).flushing = true) ∧
    inside.card = s.activeFlushers
  gone : s.Halting → ∀ t, (s.pc t).letIn = false

theorem flushing_of_letIn {pc : ThreadPc} (h : pc.letIn = true) : pc.flushing = true := by
  cases pc with
  | wake waker => cases waker <;> first | rfl | contradiction
  | flushRequest | flushWait | flushLeave => rfl
  | _ => contradiction

theorem letIn_of_target? {pc : ThreadPc} {target : ℕ} {before : List RecordId}
    (h : pc.target? = some (target, before)) : pc.letIn = true := by
  cases pc with
  | wake waker => cases waker <;> first | rfl | contradiction
  | flushWait | flushLeave => rfl
  | _ => contradiction

/-! ## Steps -/

/-- What a step does to the flush that its thread may be in. -/
inductive ThreadStep.Flushing (s s' : State) (t : ℕ) : Prop
  | keep (hflushing : (s'.pc t).flushing = (s.pc t).flushing)
      (hactive : s'.activeFlushers = s.activeFlushers)
  | enter (hpc : (s.pc t).flushing = false) (hpc' : (s'.pc t).flushing = true)
      (hactive : s'.activeFlushers = s.activeFlushers + 1)
  | leave (hpc : (s.pc t).flushing = true) (hpc' : (s'.pc t).flushing = false)
      (hactive : s'.activeFlushers = s.activeFlushers - 1)

theorem flushing_entry (call : Call) : (call.entry s t).flushing = false := by
  cases call with
  | release pages =>
      simp only [Call.entry]
      split <;> rfl
  | _ => rfl

theorem flushing_purpose_next (purpose : Purpose) (pages : Pages) (index : ℕ) :
    (purpose.next pages index).flushing = false := by
  cases purpose <;> cases pages <;> rfl

theorem flushing_move {pc next : ThreadPc} (hmove : Move conf s t pc next) :
    next.flushing = pc.flushing := by
  cases hmove <;> rfl

theorem ThreadStep.flushing (hstep : ThreadStep conf s t s') : ThreadStep.Flushing s s' t := by
  cases hstep with
  | call call hpc =>
      refine .keep ?_ rfl
      rw [State.setPc_pc_self, flushing_entry, hpc]
      rfl
  | move hmove =>
      refine .keep ?_ rfl
      rw [State.setPc_pc_self, flushing_move hmove]
  | recycle hpc | create hpc =>
      refine .keep ?_ rfl
      rw [State.setPc_pc_self, flushing_purpose_next, hpc]
      rfl
  | publish truncated hpc =>
      refine .keep ?_ rfl
      rw [State.setPc_pc_self, hpc, afterPublish]
      split <;> rfl
  | countEmitted hpc =>
      refine .keep ?_ rfl
      rw [State.setPc_pc_self, hpc]
      split <;> rfl
  | markWon hpc =>
      rename_i record _
      refine .keep ?_ rfl
      rw [State.setPc_pc_self, hpc, afterMark]
      cases record.producer <;> rfl
  | markLost hpc =>
      refine .keep ?_ rfl
      rw [State.finishLog_pc, State.setPc_pc_self, hpc]
      rfl
  | wake hpc =>
      rename_i waker
      refine .keep ?_ (by cases waker <;> rfl)
      rw [hpc]
      cases waker <;> simp only [wakeStep, State.finishLog_pc, State.setPc_pc_self] <;> rfl
  | publishBit hpc | publishRetired hpc =>
      obtain ⟨registry, hr⟩ := State.publishReadyBit_eq s _
      refine .keep ?_ (by rw [hr]; rfl)
      rw [State.setPc_pc_self, hpc]
      rfl
  | flushAdmit hpc =>
      refine .enter (by rw [hpc]; rfl) ?_ rfl
      rw [State.setPc_pc_self]
      rfl
  | flushLeft hpc =>
      refine .leave ?_ ?_ rfl
      · rcases hpc with hpc | ⟨target, before, hpc⟩ <;> rw [hpc] <;> rfl
      · rw [State.setPc_pc_self]
        rfl
  | setLevel level hpc =>
      refine .keep ?_ rfl
      rw [State.setPc_pc_self]
      rcases hpc with ⟨channel, value, hpc⟩ | ⟨value, hpc⟩ <;> rw [hpc] <;> rfl
  | claimOwner hpc | countDropped hpc | countTruncated hpc | retire hpc | retireLost hpc
  | flushRequest hpc | destroy hpc | requestStop hpc | joined hpc | resetSinks hpc
  | finishDestroy _ hpc =>
      refine .keep ?_ rfl
      rw [State.setPc_pc_self, hpc]
      rfl

theorem ConsumerStep.activeFlushers_eq (hstep : ConsumerStep conf s s') :
    s'.activeFlushers = s.activeFlushers := by
  cases hstep with
  | repost =>
      obtain ⟨registry, hr⟩ := State.publishReadyBit_eq s _
      rw [hr]
  | _ => rfl

/-- A flush is let in while the runtime runs, once it is counted. -/
theorem Next.letIn {pc next : ThreadPc} (hnext : Next conf s t pc next)
    (h : next.letIn = true) :
    pc.letIn = true ∨ pc.flushing = true ∧ s.lifecycle = .running := by
  cases hnext with
  | move hmove =>
      cases hmove with
      | flushRunning hrunning => exact .inr ⟨rfl, hrunning⟩
      | flushWait => exact .inl rfl
      | _ => contradiction
  | flushRequest | wakeFlush => exact .inl rfl
  | _ => contradiction

theorem Next.stopping {pc next : ThreadPc} (hnext : Next conf s t pc next)
    (h : next.stopping = true) : pc.stopping = true ∨ s.activeFlushers = 0 := by
  cases hnext with
  | move hmove =>
      cases hmove with
      | awaitFlushers hzero => exact .inr hzero
      | join => exact .inl rfl
      | _ => contradiction
  | requestStop | wakeStop | joined | resetSinks => exact .inl rfl
  | _ => contradiction

/-- The stop is requested past `wait_for_active_flushers`. -/
theorem ThreadStep.stopper (hstep : ThreadStep conf s t s') (h : s'.stopRequested = true) :
    s.stopRequested = true ∨ (s.pc t).stopping = true := by
  cases hstep with
  | requestStop hpc => exact .inr (by rw [hpc]; rfl)
  | joined => contradiction
  | publishBit | publishRetired =>
      obtain ⟨registry, hr⟩ := State.publishReadyBit_eq s _
      rw [hr] at h
      exact .inl h
  | wake => rename_i waker _; cases waker <;> exact .inl h
  | _ => exact .inl h

/-- A shutdown goes past the flushers when there are none. -/
theorem ThreadStep.halting (hstep : ThreadStep conf s t s') (h : s'.Halting) :
    s.Halting ∨ s.activeFlushers = 0 := by
  rcases h with hstop | hconsumer | ⟨other, hpc⟩
  · rcases hstep.stopper hstop with hold | hpc
    · exact .inl (.inl hold)
    · exact .inl (.inr (.inr ⟨t, hpc⟩))
  · exact .inl (.inr (.inl (hstep.consumer_eq ▸ hconsumer)))
  · by_cases heq : other = t
    · subst heq
      rcases hstep.next.stopping hpc with hold | hzero
      · exact .inl (.inr (.inr ⟨other, hold⟩))
      · exact .inr hzero
    · exact .inl (.inr (.inr ⟨other, hstep.pc_of_ne heq ▸ hpc⟩))

theorem Halting.not_running (h : s.Halting) (hdestroy : DestroySound s) :
    s.lifecycle ≠ .running := by
  rcases h with hstop | hconsumer | ⟨t, hpc⟩
  · exact hdestroy.requested hstop
  · exact hdestroy.stopping hconsumer
  · have hdestroying : (s.pc t).destroying = true := by
      cases hc : s.pc t with
      | wake waker =>
          rw [hc] at hpc
          cases waker <;> first | rfl | contradiction
      | _ => simp_all [ThreadPc.stopping, ThreadPc.destroying]
    simp [hdestroy.destroying t hdestroying]

theorem FlushersSound.none_of_zero (h : FlushersSound s) (hzero : s.activeFlushers = 0) (t : ℕ) :
    (s.pc t).flushing = false := by
  obtain ⟨inside, hmem, hcard⟩ := h.counted
  rw [hzero, Finset.card_eq_zero] at hcard
  have hnot : ¬ (s.pc t).flushing = true := by
    rw [← hmem t, hcard]
    exact Finset.notMem_empty t
  simpa using hnot

theorem FlushersSound.thread (h : FlushersSound s) (hdestroy : DestroySound s)
    (hstep : ThreadStep conf s t s') : FlushersSound s' := by
  obtain ⟨inside, hmem, hcard⟩ := h.counted
  have hother : ∀ other, other ≠ t → s'.pc other = s.pc other := fun other => hstep.pc_of_ne
  refine ⟨?_, fun hhalting other => ?_⟩
  · rcases hstep.flushing with ⟨hflushing, hactive⟩ | ⟨hpc, hpc', hactive⟩ | ⟨hpc, hpc', hactive⟩
    · refine ⟨inside, fun other => ?_, hactive ▸ hcard⟩
      by_cases heq : other = t
      · rw [hmem, heq, hflushing]
      · rw [hmem, hother other heq]
    · have hnot : t ∉ inside := by simp [hmem, hpc]
      refine ⟨inside.cons t hnot, fun other => ?_, by rw [Finset.card_cons, hcard, hactive]⟩
      by_cases heq : other = t
      · simp [heq, hpc']
      · simp [heq, hmem, hother other heq]
    · have hin : t ∈ inside := (hmem t).mpr hpc
      refine ⟨inside.erase t, fun other => ?_, by rw [Finset.card_erase_of_mem hin, hcard, hactive]⟩
      by_cases heq : other = t
      · simp [heq, hpc']
      · simp [heq, hmem, hother other heq]
  · have hold : ∀ other, (s.pc other).letIn = false := by
      rcases hstep.halting hhalting with hold | hzero
      · exact h.gone hold
      · intro other
        have hnone := h.none_of_zero hzero other
        by_contra hin
        rw [flushing_of_letIn (by simpa using hin)] at hnone
        contradiction
    by_cases heq : other = t
    · subst heq
      by_contra hin
      rcases hstep.next.letIn (by simpa using hin) with hpc | ⟨hpc, hrunning⟩
      · rw [hold] at hpc
        contradiction
      · rcases hstep.halting hhalting with hhalted | hzero
        · exact Halting.not_running hhalted hdestroy hrunning
        · rw [h.none_of_zero hzero] at hpc
          contradiction
    · rw [hother other heq]
      exact hold other

theorem FlushersSound.consumer (h : FlushersSound s) (hstep : ConsumerStep conf s s') :
    FlushersSound s' := by
  refine ⟨?_, fun hhalting => ?_⟩
  · rw [hstep.pc_eq, hstep.activeFlushers_eq]
    exact h.counted
  · rw [hstep.pc_eq]
    apply h.gone
    rcases hhalting with hstop | hconsumer | hpc
    · exact .inl (hstep.control_eq.2.2.1 ▸ hstop)
    · rcases hstep.ending with ⟨hstop, -⟩ | ⟨-, hstopping, -⟩ | ⟨hc, -⟩ | ⟨hc, -, -⟩
      · exact hstop.imp_right .inl
      · exact .inr (.inl (hstopping hconsumer))
      · exact .inr (.inl (by rw [hc]; rfl))
      · exact .inr (.inl (by rw [hc]; rfl))
    · exact .inr (.inr (hstep.pc_eq ▸ hpc))

theorem flushersSound_of_reachable (h : (handoff conf).Reachable s) : FlushersSound s := by
  refine h.invariant ?_ fun s a s' hs hf hstep => ?_
  · rintro _ ⟨level, rfl⟩
    refine ⟨⟨∅, by simp [State.started, ThreadPc.flushing], rfl⟩, fun _ _ => rfl⟩
  · rcases step_cases hstep with ⟨t, hthread⟩ | hconsumer
    · exact hf.thread (destroySound_of_reachable hs) hthread
    · exact hf.consumer hconsumer

end Unlog.Handoff
