import Unlog.Handoff.Churn
import Unlog.Handoff.Flushers
import Unlog.Library.Sleep

/-! # Waits and notifications

The waits of the hand-off are guarded steps. The program waits on `wake_seq`, `flush_completed` and
`active_flushers` and notifies them, and its sleepers lose nothing that way. -/

namespace Unlog.Handoff

open Library

variable {conf : Sealed} {s s' : State} {a : Action} {t : ℕ}

/-- The atomics that somebody waits on. -/
inductive Word where
  | wakeSeq | flushCompleted | activeFlushers
  deriving DecidableEq, Repr

def State.word (s : State) : Word → ℕ
  | .wakeSeq => s.wakeSeq
  | .flushCompleted => s.flushCompleted
  | .activeFlushers => s.activeFlushers

/-- The waits of `consumer_main`, `flush_backend` and `wait_for_active_flushers`; the consumer is
`none`. -/
def State.waits (s : State) : Option ℕ → Option (Word × (ℕ → Bool))
  | none =>
    match s.consumer with
    | .wait seq => some (.wakeSeq, fun value => decide (value = seq))
    | _ => none
  | some t =>
    match s.pc t with
    | .flushWait target _ => some (.flushCompleted, fun value => decide (value < target))
    | .awaitFlushers _ => some (.activeFlushers, fun value => decide (value ≠ 0))
    | _ => none

/-- What is notified after a step: `wake_consumer` always does, a flusher that leaves as the last
one, and the consumer when it has answered a request. -/
def State.notifies (s : State) : Action → Option Word
  | .thread t =>
    match s.pc t with
    | .wake _ => some .wakeSeq
    | .flushRefuse | .flushLeave _ _ =>
      if s.activeFlushers = 1 then some .activeFlushers else none
    | _ => none
  | .consumer =>
    match s.consumer with
    | .completeFlush _ => some .flushCompleted
    | _ => none
  | _ => none

/-- `notify_one` for the consumer, `notify_all` for the others. -/
def Word.notifiesAll : Word → Bool
  | .wakeSeq => false
  | .flushCompleted | .activeFlushers => true

/-- The hand-off with its waits. -/
def waiting (conf : Sealed) : Library.Waits State Action (Option ℕ) Word where
  base := handoff conf
  actor := Action.thread?
  value := State.word
  waits := State.waits
  notifies := State.notifies
  notifiesAll := Word.notifiesAll

/-! ## The hand-off keeps the rules -/

theorem waits_consumer {word : Word} {stays : ℕ → Bool} (h : s.waits none = some (word, stays)) :
    ∃ seq, s.consumer = .wait seq ∧ word = .wakeSeq ∧ ∀ value, stays value = true ↔ value = seq := by
  simp only [State.waits] at h
  split at h
  case h_1 seq hc =>
    obtain ⟨rfl, rfl⟩ := Prod.mk.inj (Option.some.inj h)
    exact ⟨seq, hc, rfl, fun value => by simp⟩
  case h_2 => contradiction

theorem waits_thread {word : Word} {stays : ℕ → Bool} (h : s.waits (some t) = some (word, stays)) :
    (∃ target before, s.pc t = .flushWait target before ∧ word = .flushCompleted ∧
      ∀ value, stays value = true ↔ value < target) ∨
    ∃ final, s.pc t = .awaitFlushers final ∧ word = .activeFlushers ∧
      ∀ value, stays value = true ↔ value ≠ 0 := by
  simp only [State.waits] at h
  split at h
  case h_1 target before hpc =>
    obtain ⟨rfl, rfl⟩ := Prod.mk.inj (Option.some.inj h)
    exact .inl ⟨target, before, hpc, rfl, fun value => by simp⟩
  case h_2 final hpc =>
    obtain ⟨rfl, rfl⟩ := Prod.mk.inj (Option.some.inj h)
    exact .inr ⟨final, hpc, rfl, fun value => by simp⟩
  case h_3 => contradiction

/-- Outside the callback of `produce`, a thread steps as itself. -/
theorem thread_of_step (hstep : step conf s a = some s') (ht : a.thread? = some t)
    (hidle : s.pc t ≠ .idle) (hproduce : ∀ channel p, s.pc t ≠ .produce channel p) :
    a = .thread t := by
  cases a with
  | thread =>
      obtain rfl := Option.some.inj ht
      rfl
  | call =>
      obtain rfl := Option.some.inj ht
      simp [step, hidle] at hstep
  | produce =>
      obtain rfl := Option.some.inj ht
      simp [step] at hstep
  | consumer => contradiction

/-- Only the last flusher that leaves brings the count to zero. -/
theorem ThreadStep.emptied (hstep : ThreadStep conf s t s') (h : s.activeFlushers ≠ 0)
    (h' : s'.activeFlushers = 0) : s.activeFlushers = 1 ∧
      (s.pc t = .flushRefuse ∨ ∃ target before, s.pc t = .flushLeave target before) := by
  cases hstep with
  | flushLeft hpc =>
      change s.activeFlushers - 1 = 0 at h'
      exact ⟨by omega, hpc⟩
  | flushAdmit => contradiction
  | publishBit | publishRetired =>
      obtain ⟨registry, hr⟩ := State.publishReadyBit_eq s _
      rw [hr] at h'
      exact absurd h' h
  | wake =>
      rename_i waker _
      cases waker <;> exact absurd h' h
  | _ => exact absurd h' h

theorem ConsumerStep.answers (hstep : ConsumerStep conf s s') :
    s'.flushCompleted = s.flushCompleted ∨ s.notifies .consumer = some .flushCompleted := by
  cases hstep with
  | completeFlush hc => exact .inr (by simp [State.notifies, hc])
  | repost =>
      obtain ⟨registry, hr⟩ := State.publishReadyBit_eq s _
      rw [hr]
      exact .inl rfl
  | _ => exact .inl rfl

theorem stuck_of_waits {word : Word} {stays : ℕ → Bool}
    (hwaits : s.waits a.thread? = some (word, stays)) (hstays : stays (s.word word) = true) :
    step conf s a = none := by
  have hthread : ∀ t, a.thread? = some t → step conf s a = none := by
    intro t ht
    rw [ht] at hwaits
    rcases waits_thread hwaits with ⟨target, before, hpc, rfl, hiff⟩ | ⟨final, hpc, rfl, hiff⟩
    · have hlt : s.flushCompleted < target := (hiff _).mp hstays
      cases a with
      | call | produce | thread =>
          obtain rfl := Option.some.inj ht
          simp [step, threadStep, hpc, hlt]
      | consumer => contradiction
    · have hne : s.activeFlushers ≠ 0 := (hiff _).mp hstays
      cases a with
      | call | produce | thread =>
          obtain rfl := Option.some.inj ht
          simp [step, threadStep, hpc, hne]
      | consumer => contradiction
  cases a with
  | consumer =>
      obtain ⟨seq, hc, rfl, hiff⟩ := waits_consumer hwaits
      have hseq : s.wakeSeq = seq := (hiff _).mp hstays
      simp [step, consumerStep, hc, hseq]
  | call t | produce t | thread t => exact hthread t rfl

theorem waits_kept {actor : Option ℕ} (hstep : step conf s a = some s')
    (hactor : a.thread? ≠ actor) : s'.waits actor = s.waits actor := by
  cases actor with
  | none =>
      obtain ⟨t, hthread⟩ := (step_cases_consumer hstep).resolve_right fun h => hactor (by rw [h.1]; rfl)
      rw [State.waits, State.waits, hthread.consumer_eq]
  | some t =>
      rw [State.waits, State.waits, step_pc_of_ne hstep hactor]

theorem waits_noticed {actor : Option ℕ} {word : Word} {stays : ℕ → Bool}
    (hstep : step conf s a = some s') (hwaits : s.waits actor = some (word, stays))
    (hstays : stays (s.word word) = true) :
    stays (s'.word word) = true ∨ s.notifies a = some word := by
  cases actor with
  | none =>
      obtain ⟨seq, hc, rfl, hiff⟩ := waits_consumer hwaits
      have hseq : s.wakeSeq = seq := (hiff _).mp hstays
      simp only [hiff]
      cases step_kind hstep with
      | call => exact .inl hseq
      | thread t ht hbusy hthread =>
          rcases hthread.wakeSeq_eq with ⟨⟨waker, hpc⟩, -⟩ | ⟨-, hsame⟩
          · obtain rfl := thread_of_step hstep ht hbusy (by simp [hpc])
            exact .inr (by simp [State.notifies, hpc])
          · exact .inl (hsame.trans hseq)
      | consumer hcons => exact .inl (hcons.wakeSeq_eq.trans hseq)
  | some t =>
      rcases waits_thread hwaits with ⟨target, before, -, rfl, hiff⟩ | ⟨final, -, rfl, hiff⟩
      · have hlt : s.flushCompleted < target := (hiff _).mp hstays
        simp only [hiff]
        cases step_kind hstep with
        | call => exact .inl hlt
        | thread t' ht hbusy hthread => exact .inl (hthread.served_eq.2.trans_lt hlt)
        | consumer hcons =>
            rcases hcons.answers with hsame | hnotifies
            · exact .inl (hsame.trans_lt hlt)
            · exact .inr hnotifies
      · have hne : s.activeFlushers ≠ 0 := (hiff _).mp hstays
        simp only [hiff]
        cases step_kind hstep with
        | call => exact .inl hne
        | thread t' ht hbusy hthread =>
            refine (Classical.em (s'.activeFlushers = 0)).symm.imp_right fun hzero => ?_
            obtain ⟨hone, hpc⟩ := hthread.emptied hne hzero
            rcases hpc with hpc | ⟨target, before, hpc⟩ <;>
              obtain rfl := thread_of_step hstep ht hbusy (by simp [hpc]) <;>
                simp [State.notifies, hpc, hone]
        | consumer hcons => exact .inl (hcons.activeFlushers_eq.trans_ne hne)

theorem waiting_lawful (conf : Sealed) : (waiting conf).Lawful where
  stuck _ _ _ _ _ hwaits hstays := stuck_of_waits hwaits hstays
  kept _ _ _ _ _ hstep hactor := waits_kept hstep hactor
  noticed _ _ _ _ _ _ _ hstep hwaits hstays := waits_noticed hstep hwaits hstays
  sole s w w' word stays stays' _ hone hwaits hwaits' := by
    have hnone : ∀ actor other, s.waits actor = some (word, other) → actor = none := by
      intro actor other hactor
      cases actor with
      | none => rfl
      | some t =>
          rcases waits_thread hactor with ⟨_, _, _, rfl, -⟩ | ⟨_, _, rfl, -⟩ <;> contradiction
    rw [hnone w stays hwaits, hnone w' stays' hwaits']

/-! ## Between the levels -/

/-- The program with `wait` and `notify` on the atomics. -/
def sleeping (conf : Sealed) :
    System (Waits.Sleepy State (Option ℕ) Word) (Waits.SleepyAction Action (Option ℕ)) :=
  (waiting conf).sleepy

/-- Whoever sleeps does so where the program waits, and stays asleep only while there is nothing to
go on for or until the notification that is owed to it; whatever the guarded program can do next, the
sleeping one can do after at most two accesses that change none of the state. -/
structure SleepSound (conf : Sealed) (f : Waits.Sleepy State (Option ℕ) Word) : Prop where
  reached : (handoff conf).Reachable f.state
  consumer : ∀ old, f.mode none = .asleep old → ∃ seq, f.state.consumer = .wait seq ∧
    (f.state.wakeSeq = seq ∨ ∃ u, f.owes u = some .wakeSeq)
  thread : ∀ t old, f.mode (some t) = .asleep old →
    (∃ target before, f.state.pc t = .flushWait target before ∧
      (f.state.flushCompleted < target ∨ ∃ u, f.owes u = some .flushCompleted)) ∨
    ∃ final, f.state.pc t = .awaitFlushers final ∧
      (f.state.activeFlushers ≠ 0 ∨ ∃ u, f.owes u = some .activeFlushers)
  matched : ∀ a s', step conf f.state a = some s' → ∃ silent f', silent.length ≤ 2 ∧
    (∀ b ∈ silent, Waits.SleepyAction.act? b = none) ∧
    (sleeping conf).run f (silent ++ [.act a]) = some f' ∧ f'.state = s'

/-- Between reading an atomic and falling asleep on it nobody misses its notification. -/
theorem sleepSound_of_reachable {f : Waits.Sleepy State (Option ℕ) Word}
    (h : (sleeping conf).Reachable f) : SleepSound conf f := by
  have hrefines := Waits.refines_of_reachable (waiting_lawful conf) h
  have hsound := Waits.sound_of_reachable (waiting_lawful conf) h
  refine ⟨hrefines.reached, fun old hmode => ?_, fun t old hmode => ?_, hrefines.matched⟩
  · obtain ⟨word, stays, hwaits, -⟩ := hsound.waiting none old (by rw [hmode]; rfl)
    obtain ⟨seq, hc, rfl, hiff⟩ := waits_consumer hwaits
    exact ⟨seq, hc, (hrefines.woken none old _ stays hmode hwaits).imp_left (hiff _).mp⟩
  · obtain ⟨word, stays, hwaits, -⟩ := hsound.waiting (some t) old (by rw [hmode]; rfl)
    have hwoken := hrefines.woken (some t) old word stays hmode hwaits
    rcases waits_thread hwaits with ⟨target, before, hpc, rfl, hiff⟩ | ⟨final, hpc, rfl, hiff⟩
    · exact .inl ⟨target, before, hpc, hwoken.imp_left (hiff _).mp⟩
    · exact .inr ⟨final, hpc, hwoken.imp_left (hiff _).mp⟩

/-- The consumer falls asleep, and then a thread publishes a record and bumps `wake_seq`. -/
def demoAsleep : List (Waits.SleepyAction Action (Option ℕ)) :=
  List.replicate 10 (.act .consumer) ++ [.load none, .compare none, .act (.call 0 (.log 0 .info)),
    .act (.thread 0), .act (.thread 0), .act (.thread 0), .act (.produce 0 .written),
    .act (.thread 0), .act (.thread 0), .act (.thread 0), .act (.thread 0)]

/-- The notification is still to come. -/
theorem sleepSound_asleep :
    ∃ f, (sleeping demo).run { state := .started demo fun _ => .info } demoAsleep = some f ∧
      f.mode none = .asleep 0 ∧ ∃ u, f.owes u = some .wakeSeq := by
  have hrun : ((sleeping demo).run { state := .started demo fun _ => .info } demoAsleep).map
      (fun f => (f.mode none, f.state.wakeSeq)) = some (.asleep 0, 1) := by
    decide +kernel
  have hwait : ((sleeping demo).run { state := .started demo fun _ => .info } demoAsleep).map
      (fun f => f.state.consumer) = some (.wait 0) := by
    decide +kernel
  obtain ⟨f, hf, hboth⟩ := Option.map_eq_some_iff.mp hrun
  obtain ⟨hmode, hseq⟩ := Prod.mk.inj hboth
  rw [hf, Option.map_some] at hwait
  refine ⟨f, hf, hmode, ?_⟩
  have hreach : (sleeping demo).Reachable f := by
    refine System.Reachable.run (.initial ⟨_, ⟨fun _ => .info, rfl⟩, rfl⟩) hf
  obtain ⟨seq, hc, hwoken⟩ := (sleepSound_of_reachable hreach).consumer 0 hmode
  obtain rfl := ConsumerPc.wait.inj ((Option.some.inj hwait).symm.trans hc)
  exact hwoken.resolve_left (by omega)

end Unlog.Handoff
