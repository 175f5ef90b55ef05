import Unlog.Handoff.Blocked
import Unlog.Handoff.Ledger

/-! # Shutdown

What `destroy_runtime` leaves behind: silent channels, flushed sinks that nobody writes to any
more, and all that was accepted, unless the last pass overlooks a producer. -/

namespace Unlog.Handoff

open Library

variable {conf : Sealed} {s s' : State} {t : ℕ} {r : RecordId}

/-! ## The destroying thread -/

/-- The lifecycle a call of `destroy_runtime` ends with. -/
def ThreadPc.final? : ThreadPc → Option RuntimeLifecycle
  | .destroy final => some final
  | .awaitFlushers final => some final
  | .requestStop final => some final
  | .wake (.stop final) => some final
  | .join final => some final
  | .joined final => some final
  | .resetSinks final => some final
  | .finishDestroy final => some final
  | _ => none

/-- Past the first critical section of `destroy_runtime`. -/
def ThreadPc.destroying : ThreadPc → Bool
  | .awaitFlushers _ | .requestStop _ | .wake (.stop _) | .join _ | .joined _ | .resetSinks _
  | .finishDestroy _ => true
  | _ => false

/-- Past `consumer_thread.join`. -/
def ThreadPc.halted : ThreadPc → Bool
  | .joined _ | .resetSinks _ | .finishDestroy _ => true
  | _ => false

def Round.isFinal : Round → Bool
  | .final _ => true
  | _ => false

/-- Past the loop of `consumer_main`. -/
def ConsumerPc.stopping : ConsumerPc → Bool
  | .pass round _ => round.isFinal
  | .visit round _ _ _ => round.isFinal
  | .finalFlush | .ended => true
  | _ => false

structure DestroySound (s : State) : Prop where
  final : ∀ t final, (s.pc t).final? = some final → final ≠ .running
  destroying : ∀ t, (s.pc t).destroying = true → s.lifecycle = .shuttingDown
  alone : ∀ t t', (s.pc t).destroying = true → (s.pc t').destroying = true → t = t'
  halted : ∀ t, (s.pc t).halted = true → s.consumer = .ended
  reset : s.sinksReset = true → s.consumer = .ended
  requested : s.stopRequested = true → s.lifecycle ≠ .running
  stopping : s.consumer.stopping = true → s.lifecycle ≠ .running
  silent : s.lifecycle ≠ .running → ∀ channel, s.level channel = .off

theorem Next.final? {pc next : ThreadPc} (hnext : Next conf s t pc next)
    {final : RuntimeLifecycle} (h : next.final? = some final) :
    pc.final? = some final ∨ final ≠ .running := by
  cases hnext with
  | callDestroy hfinal =>
      obtain rfl := Option.some.inj h
      exact .inr hfinal
  | move hmove =>
      cases hmove with
      | awaitFlushers | join => exact .inl h
      | _ => contradiction
  | destroy | requestStop | wakeStop | joined | resetSinks => exact .inl h
  | _ => contradiction

theorem Next.halted {pc next : ThreadPc} (hnext : Next conf s t pc next)
    (h : next.halted = true) : pc.halted = true ∨ s.consumer = .ended := by
  cases hnext with
  | move hmove =>
      cases hmove with
      | join hended => exact .inr hended
      | _ => contradiction
  | joined | resetSinks => exact .inl rfl
  | _ => contradiction

theorem Next.destroying {pc next : ThreadPc} (hnext : Next conf s t pc next)
    (h : next.destroying = true) :
    pc.destroying = true ∨ ∃ final, pc = .destroy final ∧ next = .awaitFlushers final := by
  cases hnext with
  | destroy => exact .inr ⟨_, rfl, rfl⟩
  | move hmove =>
      cases hmove with
      | awaitFlushers | join => exact .inl rfl
      | _ => contradiction
  | requestStop | wakeStop | joined | resetSinks => exact .inl rfl
  | _ => contradiction

/-- What a thread does to the lifecycle, the levels and the accepted records. -/
inductive ThreadStep.Control (s s' : State) (t : ℕ) : Prop
  | keep (hnext : (s'.pc t).destroying = true → (s.pc t).destroying = true)
      (hlifecycle : s'.lifecycle = s.lifecycle) (haccepted : s'.accepted = s.accepted)
      (hlevel : s'.level = s.level ∨ s.lifecycle = .running)
  | destroy (hrunning : s.lifecycle = .running) (hlifecycle : s'.lifecycle = .shuttingDown)
      (hlevel : ∀ channel, s'.level channel = .off)
  | finish {final : RuntimeLifecycle} (hpc : s.pc t = .finishDestroy final)
      (hpc' : s'.pc t = .idle) (hlifecycle : s'.lifecycle = final)
      (haccepted : s'.accepted = s.accepted) (hlevel : s'.level = s.level)

theorem ThreadStep.control (hstep : ThreadStep conf s t s') : ThreadStep.Control s s' t := by
  have hnext := fun hpc : ∀ final, s.pc t ≠ .destroy final => fun h =>
    (hstep.next.destroying h).resolve_right fun ⟨final, hfinal, _⟩ => hpc final hfinal
  cases hstep with
  | destroy _ hrunning => exact .destroy hrunning rfl fun _ => rfl
  | finishDestroy _ hpc => exact .finish hpc (State.setPc_pc_self _) rfl rfl rfl
  | setLevel level hpc hrunning =>
      refine .keep (hnext ?_) rfl rfl (.inr hrunning)
      rcases hpc with ⟨channel, value, hpc⟩ | ⟨value, hpc⟩ <;> simp [hpc]
  | move hmove =>
      refine .keep (fun h => ?_) rfl rfl (.inl rfl)
      rw [State.setPc_pc_self] at h
      generalize s.pc t = pc at hmove
      cases hmove <;> first | rfl | contradiction
  | publishBit hpc | publishRetired hpc =>
      have hkeep := hnext (by simp [hpc])
      obtain ⟨registry, hr⟩ := State.publishReadyBit_eq s _
      rw [hr] at hkeep ⊢
      exact .keep hkeep rfl rfl (.inl rfl)
  | wake hpc =>
      have hkeep := hnext (by simp [hpc])
      rename_i waker
      cases waker <;> exact .keep hkeep rfl rfl (.inl rfl)
  | flushLeft hpc =>
      refine .keep (hnext ?_) rfl rfl (.inl rfl)
      rcases hpc with hpc | ⟨target, before, hpc⟩ <;> simp [hpc]
  | call call hpc | claimOwner hpc | recycle hpc | create hpc | publish _ hpc | countDropped hpc
  | countEmitted hpc | countTruncated hpc | markWon hpc | markLost hpc | retire hpc
  | retireLost hpc | flushAdmit hpc | flushRequest hpc | requestStop hpc | joined hpc
  | resetSinks hpc => exact .keep (hnext (by simp [hpc])) rfl rfl (.inl rfl)

theorem ThreadStep.stopRequested (hstep : ThreadStep conf s t s')
    (h : s'.stopRequested = true) : s.stopRequested = true ∨ (s.pc t).destroying = true := by
  cases hstep with
  | requestStop hpc => exact .inr (by rw [hpc]; rfl)
  | joined => contradiction
  | publishBit | publishRetired =>
      obtain ⟨registry, hr⟩ := State.publishReadyBit_eq s _
      rw [hr] at h
      exact .inl h
  | wake => rename_i waker _; cases waker <;> exact .inl h
  | _ => exact .inl h

theorem ThreadStep.sinksReset (hstep : ThreadStep conf s t s')
    (h : s'.sinksReset = true) : s.sinksReset = true ∨ (s.pc t).halted = true := by
  cases hstep with
  | resetSinks hpc => exact .inr (by rw [hpc]; rfl)
  | publishBit | publishRetired =>
      obtain ⟨registry, hr⟩ := State.publishReadyBit_eq s _
      rw [hr] at h
      exact .inl h
  | wake => rename_i waker _; cases waker <;> exact .inl h
  | _ => exact .inl h

/-- A runtime that is shutting down or was shut down does not run again. -/
theorem DestroySound.ended (h : DestroySound s) (hstep : ThreadStep conf s t s')
    (hne : s.lifecycle ≠ .running) : s'.lifecycle ≠ .running := by
  rcases hstep.control with ⟨-, heq, -, -⟩ | ⟨hrunning, -, -⟩ | ⟨hpc, -, rfl, -, -⟩
  · rwa [heq]
  · exact absurd hrunning hne
  · exact h.final t _ (by rw [hpc]; rfl)

theorem DestroySound.thread (h : DestroySound s) (hstep : ThreadStep conf s t s') :
    DestroySound s' := by
  have hother : ∀ other, other ≠ t → s'.pc other = s.pc other := fun other => hstep.pc_of_ne
  have hcontrol := hstep.control
  refine
    { final := fun other final hf => ?_
      destroying := fun other hd => ?_
      alone := fun a b ha hb => ?_
      halted := fun other hh => ?_
      reset := fun hr => ?_
      requested := fun hr => ?_
      stopping := fun hc => h.ended hstep (h.stopping (hstep.consumer_eq ▸ hc))
      silent := fun hne channel => ?_ }
  · by_cases heq : other = t
    · subst heq
      exact (hstep.next.final? hf).elim (h.final _ final) id
    · exact h.final other final (hother other heq ▸ hf)
  · rcases hcontrol with ⟨hnext, hlifecycle, -, -⟩ | ⟨-, hlifecycle, -⟩ | ⟨hpc, hpc', -, -, -⟩
    · rw [hlifecycle]
      by_cases heq : other = t
      · exact h.destroying t (hnext (heq ▸ hd))
      · exact h.destroying other (hother other heq ▸ hd)
    · exact hlifecycle
    · have hne : other ≠ t := by
        rintro rfl
        rw [hpc'] at hd
        contradiction
      exact absurd (h.alone other t (hother other hne ▸ hd) (by rw [hpc]; rfl)) hne
  · rcases hcontrol with ⟨hnext, -, -, -⟩ | ⟨hrunning, -, -⟩ | ⟨hpc, hpc', -, -, -⟩
    · have hold : ∀ other, (s'.pc other).destroying = true → (s.pc other).destroying = true := by
        intro other hd
        by_cases heq : other = t
        · exact heq ▸ hnext (heq ▸ hd)
        · exact hother other heq ▸ hd
      exact h.alone a b (hold a ha) (hold b hb)
    · have hself : ∀ other, (s'.pc other).destroying = true → other = t := by
        intro other hd
        by_contra hne
        rw [h.destroying other (hother other hne ▸ hd)] at hrunning
        contradiction
      rw [hself a ha, hself b hb]
    · have hne : ∀ other, (s'.pc other).destroying = true → other ≠ t := by
        rintro _ hd rfl
        rw [hpc'] at hd
        contradiction
      exact h.alone a b (hother a (hne a ha) ▸ ha) (hother b (hne b hb) ▸ hb)
  · rw [hstep.consumer_eq]
    by_cases heq : other = t
    · subst heq
      exact (hstep.next.halted hh).elim (h.halted _) id
    · exact h.halted other (hother other heq ▸ hh)
  · rw [hstep.consumer_eq]
    exact (hstep.sinksReset hr).elim h.reset (h.halted t)
  · refine h.ended hstep ?_
    rcases hstep.stopRequested hr with hr | hd
    · exact h.requested hr
    · simp [h.destroying t hd]
  · rcases hcontrol with ⟨-, hlifecycle, -, hlevel⟩ | ⟨-, -, hlevel⟩ | ⟨hpc, -, -, -, hlevel⟩
    · rw [hlifecycle] at hne
      rw [hlevel.resolve_right hne]
      exact h.silent hne channel
    · exact hlevel channel
    · rw [hlevel]
      refine h.silent ?_ channel
      simp [h.destroying t (by rw [hpc]; rfl)]

theorem ConsumerStep.control_eq (hstep : ConsumerStep conf s s') :
    s'.lifecycle = s.lifecycle ∧ s'.level = s.level ∧ s'.stopRequested = s.stopRequested ∧
      s'.sinksReset = s.sinksReset := by
  cases hstep with
  | repost =>
      obtain ⟨registry, hr⟩ := State.publishReadyBit_eq s _
      rw [hr]
      exact ⟨rfl, rfl, rfl, rfl⟩
  | _ => exact ⟨rfl, rfl, rfl, rfl⟩

theorem ConsumerStep.not_ended (hstep : ConsumerStep conf s s') : s.consumer ≠ .ended := by
  intro hended
  cases hstep <;> simp_all

/-- The pass of `drain_until_idle` will be the last one if nothing turns up. -/
def Round.isLast : Round → Bool
  | .final true => true
  | _ => false

def ConsumerPc.lastPass : ConsumerPc → Bool
  | .pass round _ => round.isLast
  | .visit round _ _ _ => round.isLast
  | _ => false

/-- How a step of the consumer goes on with the last passes. -/
inductive ConsumerStep.Ending (conf : Sealed) (s s' : State) : Prop
  | start (hstop : s.stopRequested = true ∨ s.consumer.stopping = true)
      (hc' : s'.consumer = .pass (.final true) Cursor.first)
  | walk (hlast : s'.consumer.lastPass = true → s.consumer.lastPass = true)
      (hstopping : s'.consumer.stopping = true → s.consumer.stopping = true)
      (hnext : s'.consumer ≠ .finalFlush ∧ s'.consumer ≠ .ended)
  | passed (hc : s.consumer = .pass (.final true) .done) (hc' : s'.consumer = .finalFlush)
  | flushed (hc : s.consumer = .finalFlush) (hc' : s'.consumer = .ended)
      (hout : s'.out = s.out ++ flushEvents conf)

theorem isLast_notDrained (round : Round) : round.notDrained.isLast = false := by
  cases round <;> rfl

theorem isFinal_notDrained (round : Round) : round.notDrained.isFinal = round.isFinal := by
  cases round <;> rfl

theorem ConsumerStep.ending (hstep : ConsumerStep conf s s') :
    ConsumerStep.Ending conf s s' := by
  cases hstep with
  | stop hc hstop => exact .start (.inl hstop) rfl
  | finalFlush hc => exact .flushed hc rfl rfl
  | passDone hc =>
      rename_i round
      cases round with
      | final allDrained =>
          cases allDrained with
          | true => exact .passed hc rfl
          | false => exact .start (.inr (by rw [hc]; rfl)) rfl
      | _ => exact .walk nofun nofun ⟨nofun, nofun⟩
  | consume hc => exact .walk id id ⟨by simp [hc], by simp [hc]⟩
  | repost hc | remarkLost hc =>
      refine .walk (fun h => ?_) (fun h => ?_) ⟨nofun, nofun⟩
      · exact absurd ((isLast_notDrained _).symm.trans h) nofun
      · rw [hc]
        exact (isFinal_notDrained _).symm.trans h
  | secondEmpty hc =>
      rename_i p _
      cases p <;>
        exact .walk (fun h => by rw [hc]; exact h) (fun h => by rw [hc]; exact h) ⟨nofun, nofun⟩
  | sampleTicket | noFlush | sleep | again | awake | startFlush | flushSinks | completeFlush =>
      exact .walk nofun nofun ⟨nofun, nofun⟩
  | singleVisit hc | singleSkip hc | countFlush hc | countWords hc | takeWord hc | wordsDone hc
  | bitsDone hc | bitVisit hc | slotVisit hc | slotsDone hc | readTail hc | consumed hc
  | firstEmpty hc | firstFilled hc | clearEnqueued hc | secondFilled hc | remarkWon hc
  | isRetired hc | notRetired hc | markFree hc | pushFree hc =>
      exact .walk (fun h => by rw [hc]; exact h) (fun h => by rw [hc]; exact h) ⟨nofun, nofun⟩

theorem DestroySound.consumer (h : DestroySound s) (hstep : ConsumerStep conf s s') :
    DestroySound s' := by
  obtain ⟨hlifecycle, hlevel, hstop, hreset⟩ := hstep.control_eq
  have hended : s.consumer = .ended → s'.consumer = .ended := fun h => absurd h hstep.not_ended
  refine
    { final := hstep.pc_eq ▸ h.final
      destroying := hstep.pc_eq ▸ hlifecycle ▸ h.destroying
      alone := hstep.pc_eq ▸ h.alone
      halted := fun t hh => hended (h.halted t (hstep.pc_eq ▸ hh))
      reset := fun hr => hended (h.reset (hreset ▸ hr))
      requested := hstop ▸ hlifecycle ▸ h.requested
      stopping := fun hc => ?_
      silent := hlevel ▸ hlifecycle ▸ h.silent }
  rw [hlifecycle]
  rcases hstep.ending with ⟨hstop | hc', -⟩ | ⟨-, hstopping, -⟩ | ⟨hc', -⟩ | ⟨hc', -, -⟩
  · exact h.requested hstop
  · exact h.stopping hc'
  · exact h.stopping (hstopping hc)
  · exact h.stopping (by rw [hc']; rfl)
  · exact h.stopping (by rw [hc']; rfl)

theorem destroySound_of_reachable (h : (handoff conf).Reachable s) : DestroySound s := by
  refine h.invariant ?_ fun s a s' hs hd hstep => ?_
  · rintro _ ⟨level, rfl⟩
    exact ⟨nofun, nofun, nofun, nofun, nofun, nofun, nofun, fun hne => absurd rfl hne⟩
  · rcases step_cases hstep with ⟨t, hthread⟩ | hconsumer
    · exact hd.thread hthread
    · exact hd.consumer hconsumer

/-- Whatever level setters do after a shutdown began, the channels stay silent. -/
theorem run_silent {actions : List Action} (hs : (handoff conf).Reachable s)
    (hne : s.lifecycle ≠ .running) (h : (handoff conf).run s actions = some s') (channel : ℕ) :
    s'.level channel = .off := by
  induction actions generalizing s with
  | nil =>
      obtain rfl : s = s' := by simpa [System.run] using h
      exact (destroySound_of_reachable hs).silent hne channel
  | cons a actions ih =>
      obtain ⟨next, hnext, hrest⟩ := Option.bind_eq_some_iff.mp h
      refine ih (hs.step hnext) ?_ hrest
      rcases step_cases hnext with ⟨t, hthread⟩ | hconsumer
      · exact (destroySound_of_reachable hs).ended hthread hne
      · rwa [hconsumer.control_eq.1]

/-! ## What the sinks see at the end -/

structure OutputSound (conf : Sealed) (s : State) : Prop where
  live : ∀ sink r live, .write sink r live ∈ s.out → live = true ∧ sink ∈ conf.sinks
  ended : s.consumer = .ended → ∃ before, s.out = before ++ flushEvents conf

theorem not_write_flushEvents {sink : SinkRef} {live : Bool} :
    .write sink r live ∉ flushEvents conf := by
  intro hmem
  obtain ⟨sink', -, heq⟩ := List.mem_map.mp hmem
  contradiction

theorem OutputSound.consumer (hdestroy : DestroySound s) (h : OutputSound conf s)
    (hstep : ConsumerStep conf s s') : OutputSound conf s' := by
  refine ⟨fun sink r live hmem => ?_, fun hended => ?_⟩
  · rcases hstep.output with ⟨p, record, hc, -, -, hout, -, -⟩ | ⟨-, hout, -⟩ | ⟨hout, -⟩
    · rw [hout] at hmem
      rcases List.mem_append.mp hmem with hold | hnew
      · exact h.live sink r live hold
      · obtain ⟨sink', htarget, heq⟩ := List.mem_map.mp hnew
        obtain ⟨rfl, -, rfl⟩ := Event.write.inj heq
        refine ⟨?_, mem_sinks_of_targets htarget⟩
        have hreset : s.sinksReset ≠ true := fun hr => by
          rw [hdestroy.reset hr] at hc
          contradiction
        simpa using hreset
    · rw [hout] at hmem
      exact h.live sink r live ((List.mem_append.mp hmem).resolve_right not_write_flushEvents)
    · exact h.live sink r live (hout ▸ hmem)
  · rcases hstep.ending with ⟨-, hc'⟩ | ⟨-, -, -, hne⟩ | ⟨-, hc'⟩ | ⟨-, -, hout⟩
    · rw [hc'] at hended
      contradiction
    · exact absurd hended hne
    · rw [hc'] at hended
      contradiction
    · exact ⟨s.out, hout⟩

theorem outputSound_of_reachable (h : (handoff conf).Reachable s) : OutputSound conf s := by
  refine h.invariant ?_ fun s a s' hs ho hstep => ?_
  · rintro _ ⟨level, rfl⟩
    exact ⟨nofun, nofun⟩
  · rcases step_cases hstep with ⟨t, hthread⟩ | hconsumer
    · have hout := hthread.served_eq.1
      exact ⟨hout ▸ ho.live, hthread.consumer_eq ▸ hout ▸ ho.ended⟩
    · exact ho.consumer (destroySound_of_reachable hs) hconsumer

/-! ## The last pass -/

/-- A final pass that has found no producer undrained so far takes a word while the ready bit of a
producer in it is still to come from a thread that won the mark, and an accepted record of that
producer was not taken. -/
def Overlooks (s : State) : Prop :=
  ∃ pages words i t record r,
    s.consumer = .pass (.final true) (.word pages words (i / 64)) ∧ i / 64 < words ∧
    ¬ ReadyBit s pages i ∧ s.pc t = .publishBit record ∧ record.producer = .pooled pages i ∧
    r ∈ s.accepted ∧ r.producer = .pooled pages i ∧ ¬ Taken s r

/-- The consumer does not overlook a producer with this step. -/
def Attentive (s : State) (a : Action) : Prop := a = .consumer → ¬ Overlooks s

structure DrainSound (conf : Sealed) (s : State) : Prop where
  covered : s.consumer.lastPass = true → ∀ r ∈ s.accepted, Covered s r
  passed : s.consumer = .finalFlush → ∀ r ∈ s.accepted, Taken s r
  ended : s.consumer = .ended → ∀ r ∈ s.accepted, Secured conf s r

theorem stopping_of_lastPass {consumer : ConsumerPc} (h : consumer.lastPass = true) :
    consumer.stopping = true := by
  cases consumer with
  | pass round _ | visit round _ _ _ => cases round <;> first | rfl | contradiction
  | _ => contradiction

theorem pending?_of_phase {pc : ThreadPc} {p : ProducerId} {n : ℕ}
    (h : pc.phase p = .written n) : pc.pending? = some ⟨p, n⟩ := by
  cases pc with
  | countEmitted record | countTruncated record | markEnqueued record =>
      rw [ThreadPc.phase] at h
      split at h
      case isTrue hp =>
        subst hp
        rw [← Phase.written.inj h]
        rfl
      case isFalse => contradiction
  | publishBit record | publishRetired pages index =>
      rw [ThreadPc.phase] at h
      split at h <;> contradiction
  | _ => contradiction

theorem publishBit_of_phase {pc : ThreadPc} {p : ProducerId} (h : pc.phase p = .marked) :
    ∃ record, pc = .publishBit record ∧ record.producer = p := by
  cases pc with
  | publishBit record =>
      rw [ThreadPc.phase] at h
      split at h
      case isTrue hp => exact ⟨record, rfl, hp⟩
      case isFalse => contradiction
  | countEmitted | countTruncated | markEnqueued | publishRetired =>
      rw [ThreadPc.phase] at h
      split at h <;> contradiction
  | _ => contradiction

/-- A pass that takes a word without the bit of a producer comes before the thread that won the
mark and is about to raise it. -/
theorem marked_of_passes (hledger : Ledger s) (hcell : (cell s r.producer).Inv)
    (hr : r ∈ s.returned) (htaken : ¬ Taken s r) (h : Passes s r.producer) :
    ∃ t record, s.pc t = .publishBit record ∧ record.producer = r.producer := by
  obtain ⟨round, pages, words, i, hp, -, hc, hbit⟩ := h
  have hcovered := hcell.covered r.number (Nat.le_of_not_lt htaken) (hledger.returned r hr)
  have haway : (cell s r.producer).visit = .away := by
    simp [cell, hc, ConsumerPc.facing, Cursor.facing, Cursor.due]
  have hsignal : ¬ (cell s r.producer).signal := by
    rw [hp]
    exact hbit
  simp only [haway, hsignal, reduceCtorEq, or_false, false_or] at hcovered
  rcases hcovered with ⟨t, hwritten⟩ | ⟨t, hmarked⟩
  · exact absurd hr (hledger.pending t r (pending?_of_phase hwritten)).2
  · obtain ⟨record, hpc, hrecord⟩ := publishBit_of_phase hmarked
    exact ⟨t, record, hpc, hrecord⟩

theorem final_of_lastPass {round : Round} {cursor : Cursor} (hc : s.consumer = .pass round cursor)
    (hlast : s.consumer.lastPass = true) : round = .final true := by
  rw [hc] at hlast
  cases round with
  | final allDrained => cases allDrained <;> first | rfl | contradiction
  | _ => contradiction

/-- What a last pass fails to cover it overlooks. -/
theorem overlooks_of_passes (hs : (handoff conf).Reachable s) (hlast : s.consumer.lastPass = true)
    (hr : r ∈ s.accepted) (htaken : ¬ Taken s r) (h : Passes s r.producer) : Overlooks s := by
  have hledger := ledger_of_reachable hs
  obtain ⟨t, record, hpc, hrecord⟩ := marked_of_passes hledger (cellInv_of_reachable hs r.producer)
    (hledger.accepted r hr) htaken h
  obtain ⟨round, pages, words, i, hp, hlt, hc, hbit⟩ := h
  obtain rfl := final_of_lastPass hc hlast
  exact ⟨pages, words, i, t, record, r, hc, hlt, hbit, hpc, hrecord.trans hp, hr, hp, htaken⟩

theorem DrainSound.thread (hdestroy : DestroySound s) (h : DrainSound conf s)
    (hstep : ThreadStep conf s t s') : DrainSound conf s' := by
  have hconsumer := hstep.consumer_eq
  have haccepted : s.consumer.stopping = true → s'.accepted = s.accepted := by
    intro hstopping
    rcases hstep.control with ⟨-, -, heq, -⟩ | ⟨hrunning, -, -⟩ | ⟨-, -, -, heq, -⟩
    · exact heq
    · exact absurd hrunning (hdestroy.stopping hstopping)
    · exact heq
  refine ⟨fun hlast r hr => ?_, fun hc r hr => ?_, fun hc r hr => ?_⟩
  · rw [hconsumer] at hlast
    rw [haccepted (stopping_of_lastPass hlast)] at hr
    exact (h.covered hlast r hr).thread hstep
  · rw [hconsumer] at hc
    rw [haccepted (by rw [hc]; rfl)] at hr
    exact (h.passed hc r hr).thread hstep
  · rw [hconsumer] at hc
    rw [haccepted (by rw [hc]; rfl)] at hr
    exact (h.ended hc r hr).thread hstep

theorem DrainSound.consumer (hs : (handoff conf).Reachable s) (h : DrainSound conf s)
    (hok : ¬ Overlooks s) (hstep : ConsumerStep conf s s') : DrainSound conf s' := by
  have haccepted := hstep.ledger_eq.2
  rcases hstep.ending with ⟨-, hc'⟩ | ⟨hlast, -, hpassed, hended⟩ | ⟨hc, hc'⟩ | ⟨hc, hc', hout⟩
  · refine ⟨fun _ _ _ => covered_first hc', fun hc => ?_, fun hc => ?_⟩ <;>
      (rw [hc'] at hc; contradiction)
  · refine ⟨fun hlast' r hr => ?_, fun hc => absurd hc hpassed, fun hc => absurd hc hended⟩
    rw [haccepted] at hr
    by_cases htaken : Taken s r
    · exact .inl (htaken.consumer hstep)
    · have hledger := ledger_of_reachable hs
      refine ((h.covered (hlast hlast') r hr).consumer (ownership_of_reachable hs)
        (makings_of_reachable hs) (passSound_of_reachable hs)
        (hledger.returned r (hledger.accepted r hr)) hstep).resolve_right fun hpasses => ?_
      exact hok (overlooks_of_passes hs (hlast hlast') hr htaken hpasses)
  · refine ⟨fun hlast => ?_, fun _ r hr => ?_, fun hended => ?_⟩
    · rw [hc'] at hlast
      contradiction
    · have hcovered := h.covered (by rw [hc]; rfl) r (haccepted ▸ hr)
      exact (hcovered.done hc).consumer hstep
    · rw [hc'] at hended
      contradiction
  · refine ⟨fun hlast => ?_, fun hpassed => ?_, fun _ r hr => ?_⟩
    · rw [hc'] at hlast
      contradiction
    · rw [hc'] at hpassed
      contradiction
    · refine ⟨(h.passed hc r (haccepted ▸ hr)).consumer hstep, fun sink hsink => ?_⟩
      rw [hout]
      exact flushedAfter_flushEvents s.out hsink

theorem drainSound_of_attentive (h : (handoff conf).ReachableWhere Attentive s) :
    DrainSound conf s := by
  refine h.invariant ?_ fun s a s' hs hd hok hstep => ?_
  · rintro _ ⟨level, rfl⟩
    exact ⟨nofun, nofun, nofun⟩
  · rcases step_cases_consumer hstep with ⟨t, hthread⟩ | ⟨rfl, hconsumer⟩
    · exact hd.thread (destroySound_of_reachable hs) hthread
    · exact hd.consumer hs (hok rfl) hconsumer

/-! ## The contract -/

/-- Every write to the sink is followed by a flush of it. -/
def FlushedLast (out : List Event) (sink : SinkRef) : Prop :=
  ∃ before after, out = before ++ after ∧ .flush sink ∈ after ∧
    ∀ r live, .write sink r live ∉ after

/-- What a shutdown promises. -/
structure ShutdownContract (conf : Sealed) (s : State) : Prop where
  complete : s.consumer = .ended → ∀ r ∈ s.accepted, Delivered conf s r
  flushed : s.consumer = .ended → ∀ sink r live, .write sink r live ∈ s.out →
    FlushedLast s.out sink
  live : ∀ sink r, .write sink r false ∉ s.out
  silent : s.lifecycle ≠ .running → ∀ actions s', (handoff conf).run s actions = some s' →
    ∀ channel, s'.level channel = .off

/-- All that was accepted is delivered if the last pass never overlooks a producer. -/
theorem shutdownContract_of_attentive (h : (handoff conf).ReachableWhere Attentive s) :
    ShutdownContract conf s := by
  have hs := h.reachable
  have houtput := outputSound_of_reachable hs
  refine
    { complete := fun hended r hr => ((drainSound_of_attentive h).ended hended r hr).delivered hs
      flushed := fun hended sink r live hwrite => ?_
      live := fun sink r hwrite => nomatch (houtput.live sink r false hwrite).1
      silent := fun hne actions s' hrun => run_silent hs hne hrun }
  obtain ⟨before, hout⟩ := houtput.ended hended
  refine ⟨before, flushEvents conf, hout, ?_, fun _ _ => not_write_flushEvents⟩
  exact List.mem_map.mpr ⟨sink, (houtput.live sink r live hwrite).2, rfl⟩

/-- A thread logs a record of the demo runtime, and another one shuts the runtime down. -/
def demoStop : List Action :=
  [.call 0 (.log 0 .info), .thread 0, .thread 0, .thread 0, .produce 0 .written, .thread 0,
    .thread 0, .thread 0, .thread 0, .call 1 .processExit, .thread 1, .thread 1, .thread 1,
    .thread 1]

/-- The consumer ends with the record delivered. -/
theorem shutdownContract_after_stop :
    ∃ s, (handoff demo).run (.started demo fun _ => .info)
        (demoStop ++ List.replicate 30 .consumer) = some s ∧
      s.consumer = .ended ∧ s.accepted = [⟨.pooled .normal 0, 0⟩] ∧ ShutdownContract demo s := by
  have hstop : ((handoff demo).run (.started demo fun _ => .info) demoStop).map
      (fun s => (s.pc 0, s.pc 1)) = some (.idle, .join .shutDown) := by
    decide +kernel
  have hend : ((handoff demo).run (.started demo fun _ => .info)
      (demoStop ++ List.replicate 30 .consumer)).map (fun s => (s.consumer, s.accepted)) =
        some (.ended, [⟨.pooled .normal 0, 0⟩]) := by
    decide +kernel
  obtain ⟨stopped, hstopped, hpcs⟩ := Option.map_eq_some_iff.mp hstop
  obtain ⟨s, hs, hfacts⟩ := Option.map_eq_some_iff.mp hend
  simp only [Prod.mk.injEq] at hpcs hfacts
  refine ⟨s, hs, hfacts.1, hfacts.2, shutdownContract_of_attentive ?_⟩
  have hfirst : (handoff demo).ReachableWhere Attentive stopped := by
    refine System.ReachableWhere.run (I := fun _ => True) (.initial ⟨_, rfl⟩) hstopped trivial ?_
      fun _ _ _ _ _ _ => trivial
    rintro s - a ha rfl
    simp [demoStop] at ha
  -- from here on no thread is about to raise a ready bit
  have hquiet : ∀ t record, stopped.pc t ≠ .publishBit record := by
    intro t record
    by_cases h0 : t = 0
    · simp [h0, hpcs.1]
    · by_cases h1 : t = 1
      · simp [h1, hpcs.2]
      · rw [run_pc_of_ne hstopped (by simp [demoStop, Action.thread?, Ne.symm h0, Ne.symm h1])]
        simp [State.started]
  rw [System.run_append, hstopped, Option.bind_some] at hs
  refine hfirst.run (I := fun s => ∀ t record, s.pc t ≠ .publishBit record) hs hquiet ?_ ?_
  · rintro s hI a - - ⟨pages, words, i, t, record, r, -, -, -, hpc, -⟩
    exact hI t record hpc
  · intro s a s' ha hI hstep
    obtain rfl := List.eq_of_mem_replicate ha
    exact (consumerStep_cases hstep).pc_eq ▸ hI

/-- A thread publishes a record, the consumer takes it and is about to clear `enqueued`, the
thread publishes a second one and returns, the consumer clears the flag, and the thread publishes
a third one and marks the producer. The consumer leaves the producer to the thread, which does not
raise the ready bit before the shutdown is over. -/
def demoStall : List Action :=
  List.flatten
    [[.call 0 (.log 0 .info), .thread 0, .thread 0, .thread 0, .produce 0 .written, .thread 0,
        .thread 0, .thread 0, .thread 0],
      List.replicate 10 .consumer,
      [.call 0 (.log 0 .info), .thread 0, .thread 0, .produce 0 .written, .thread 0, .thread 0,
        .consumer],
      [.call 0 (.log 0 .info), .thread 0, .thread 0, .produce 0 .written, .thread 0, .thread 0,
        .consumer, .consumer],
      [.call 1 .processExit, .thread 1, .thread 1, .thread 1, .thread 1],
      List.replicate 17 .consumer]

/-- The second record was accepted, and is not written when the consumer ends. -/
theorem not_shutdownContract_stalled :
    ∃ s, (handoff demo).run (.started demo fun _ => .info) demoStall = some s ∧
      s.consumer = .ended ∧ ⟨.pooled .normal 0, 1⟩ ∈ s.accepted ∧
      writesOf ⟨.pooled .normal 0, 1⟩ s.out = [] ∧ ¬ ShutdownContract demo s := by
  have hrun : ((handoff demo).run (.started demo fun _ => .info) demoStall).map
      (fun s => (s.consumer, s.accepted, writesOf ⟨.pooled .normal 0, 1⟩ s.out)) =
        some (.ended, [⟨.pooled .normal 0, 1⟩, ⟨.pooled .normal 0, 0⟩], []) := by
    decide +kernel
  obtain ⟨s, hs, hfacts⟩ := Option.map_eq_some_iff.mp hrun
  simp only [Prod.mk.injEq] at hfacts
  obtain ⟨hended, haccepted, hwrites⟩ := hfacts
  have hmem : ⟨.pooled .normal 0, 1⟩ ∈ s.accepted := by simp [haccepted]
  refine ⟨s, hs, hended, hmem, hwrites, fun hcontract => ?_⟩
  obtain ⟨record, channel, -, -, hdelivered, -⟩ := hcontract.complete hended _ hmem
  rw [hwrites] at hdelivered
  exact List.cons_ne_nil _ _ hdelivered.symm

end Unlog.Handoff
