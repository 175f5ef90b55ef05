import Unlog.Handoff.Latency
import Unlog.Handoff.Liveness
import Unlog.Library.Mutex

/-! # Mutexes

In the hand-off a critical section of `registry.mutex` or of the control mutex is one step. Here the
threads and the consumer take these mutexes and give them back, and may be stopped with them. -/

namespace Unlog.Handoff

open Library

variable {conf : Sealed} {s s' : State} {a : Action} {t n : ℕ} {r : RecordId}

inductive Mutex where
  | registry (pages : Pages)
  | control
  deriving DecidableEq, Repr

/-- The critical sections of `threadsafe_producer`, `set_route_level`, `set_global_level` and
`destroy_runtime`. -/
def ThreadPc.mutex? : ThreadPc → Option Mutex
  | .acquire pages _ => some (.registry pages)
  | .setRouteLevel _ _ | .setGlobalLevel _ | .destroy _ | .finishDestroy _ => some .control
  | _ => none

/-- The consumer, which is `none`, takes the mutex of a registry to push a producer on its free
list. -/
def State.guard (s : State) : Option ℕ → Option Mutex
  | none =>
    match s.consumer with
    | .visit _ _ p .pushFree => some (.registry p.pages)
    | _ => none
  | some t => (s.pc t).mutex?

def sections (conf : Sealed) : Sections (handoff conf) (Option ℕ) Mutex where
  actor := Action.thread?
  guard := State.guard
  turn actor := actor.elim .consumer .thread

/-- The hand-off with its mutexes. -/
def locking (conf : Sealed) :
    System (Sections.Locked State (Option ℕ) Mutex) (Sections.LockedAction Action (Option ℕ)) :=
  (sections conf).locked

/-! ## The hand-off keeps the rules -/

theorem guard_consumer {mutex : Mutex} (h : s.guard none = some mutex) :
    ∃ round resume p, s.consumer = .visit round resume p .pushFree ∧ mutex = .registry p.pages := by
  simp only [State.guard] at h
  split at h
  case h_1 round resume p hc => exact ⟨round, resume, p, hc, (Option.some.inj h).symm⟩
  case h_2 => contradiction

theorem guard_kept {actor : Option ℕ} (hstep : step conf s a = some s') (ha : a.thread? ≠ actor) :
    s'.guard actor = s.guard actor := by
  cases actor with
  | none =>
      obtain ⟨t, hthread⟩ :=
        (step_cases_consumer hstep).resolve_right fun h => ha (by rw [h.1]; rfl)
      rw [State.guard, State.guard, hthread.consumer_eq]
  | some t => rw [State.guard, State.guard, step_pc_of_ne hstep ha]

/-- Only under the control mutex does the lifecycle change. -/
theorem lifecycle_kept (hstep : step conf s a = some s') (h : s.guard a.thread? ≠ some .control) :
    s'.lifecycle = s.lifecycle := by
  cases step_kind hstep with
  | call => rfl
  | thread t ha _ hthread =>
      rw [ha] at h
      refine hthread.lifecycle_eq_of_ne (fun final hpc => ?_) fun final hpc => ?_ <;>
        exact h (by rw [State.guard, hpc]; rfl)
  | consumer hcons => exact hcons.control_eq.1

/-- A shutdown finds a runtime that runs, or another shutdown. -/
theorem destroy_ready {final : RuntimeLifecycle} (hpc : s.pc t = .destroy final) :
    (step conf s (.thread t)).isSome = true ↔
      s.lifecycle = .shuttingDown ∨ s.lifecycle = .running := by
  simp only [step, threadStep, hpc]
  by_cases hshutting : s.lifecycle = .shuttingDown <;>
    by_cases hrunning : s.lifecycle = .running <;>
    simp [hshutting, hrunning]

theorem guarded_ready {mutex : Mutex} (hs : (handoff conf).Reachable s)
    (hguard : s.guard (some t) = some mutex)
    (hdestroy : ∀ final, s.pc t = .destroy final → (step conf s (.thread t)).isSome = true) :
    (step conf s (.thread t)).isSome = true := by
  rw [State.guard] at hguard
  cases hpc : s.pc t with
  | acquire pages purpose =>
      simp only [step, threadStep, hpc]
      exact acquireStep_isSome (ownership_of_reachable hs) purpose
  | setRouteLevel | setGlobalLevel =>
      simp only [step, threadStep, hpc]
      split <;> rfl
  | destroy final => exact hdestroy final hpc
  | finishDestroy =>
      simp only [step, threadStep, hpc]
      rfl
  | _ =>
      rw [hpc] at hguard
      contradiction

theorem sections_lawful (conf : Sealed) : (sections conf).Lawful where
  own actor := by cases actor <;> rfl
  sole s a mutex _ hguard hisSome := by
    obtain ⟨s', hstep⟩ := Option.isSome_iff_exists.mp hisSome
    cases ha : a.thread? with
    | none =>
        cases a with
        | consumer => simp [sections, Action.thread?]
        | _ => contradiction
    | some t =>
        have hmutex : (s.pc t).mutex? = some mutex := by
          simpa [sections, ha, State.guard] using hguard
        have hthread : a = .thread t := by
          refine thread_of_step hstep ha (fun hpc => ?_) fun channel p hpc => ?_ <;>
            · rw [hpc] at hmutex
              contradiction
        simp [sections, hthread, Action.thread?]
  kept _ _ _ _ _ hstep ha := guard_kept hstep ha
  ready s a s' actor mutex hs hguard hready hstep ha hother := by
    have hnext := hs.step hstep
    have hguard' : s'.guard actor = some mutex := (guard_kept hstep ha).trans hguard
    cases actor with
    | none =>
        obtain ⟨round, resume, p, hc, -⟩ := guard_consumer hguard'
        simp [sections, handoff, step, consumerStep, visitStep, hc]
    | some t =>
        refine guarded_ready hnext hguard' fun final hpc => ?_
        have hpc' : s.pc t = .destroy final := (step_pc_of_ne hstep ha).symm.trans hpc
        have hcontrol : mutex = .control := by
          rw [State.guard, hpc] at hguard'
          exact (Option.some.inj hguard').symm
        rw [destroy_ready hpc, lifecycle_kept hstep (hcontrol ▸ hother)]
        exact (destroy_ready hpc').mp hready

/-! ## How long a flush waits -/

variable {f f' : Sections.Locked State (Option ℕ) Mutex}

theorem handoff_of_locking (h : (locking conf).Reachable f) : (handoff conf).Reachable f.state :=
  (sections conf).simulation.reachable h

/-- No thread is in a section of `registry.mutex`. -/
def RegistriesFree (f : Sections.Locked State (Option ℕ) Mutex) : Prop :=
  ∀ pages t, f.holder (.registry pages) ≠ some (some t)

theorem RegistriesFree.of_none (hnormal : f.holder (.registry .normal) = none)
    (hhuge : f.holder (.registry .huge) = none) : RegistriesFree f := by
  rintro (_ | _) t
  · simp [hnormal]
  · simp [hhuge]

theorem RegistriesFree.unhindered (h : RegistriesFree f) :
    (sections conf).Unhindered f none := by
  rintro mutex other s hholder hguard
  obtain ⟨round, resume, p, -, rfl⟩ := guard_consumer hguard
  cases other with
  | none => rfl
  | some t => exact absurd hholder (h p.pages t)

/-- A request for a flush is answered once the consumer has made `serviceSteps` accesses, whatever
the threads do meanwhile; a write to a sink returns. The consumer waits for nothing but a thread in
`registry.mutex`, which leaves it in two steps, and needs no thread outside of it. -/
structure FlushWait (conf : Sealed) (f : Sections.Locked State (Option ℕ) Mutex) : Prop where
  bounded : ∀ t n before actions f', (f.state.pc t).target? = some (n, before) →
    (locking conf).run f actions = some f' →
    conf.serviceSteps ≤ ((sections conf).acts actions).count .consumer →
    n ≤ f'.state.flushCompleted
  proceeds : ∀ t n before, f.state.pc t = .flushWait n before → f.state.flushCompleted < n →
    (sections conf).Proceeds f .consumer ∨ (sections conf).Barred f none
  alone : ∀ t n before, f.state.pc t = .flushWait n before → RegistriesFree f →
    ∃ actions f', actions.length ≤ 3 * conf.serviceSteps + 1 ∧
      (∀ b ∈ actions, (sections conf).actorOf b = none) ∧
      (locking conf).run f actions = some f' ∧ n ≤ f'.state.flushCompleted

theorem flushWait_of_reachable (h : (locking conf).Reachable f) : FlushWait conf f := by
  have hlatency := flushLatency_of_reachable (handoff_of_locking h)
  have hsound := Sections.sound_of_reachable (sections_lawful conf) h
  refine ⟨fun t n before actions f' htarget hrun hcount => ?_, fun t n before hpc hlt => ?_,
    fun t n before hpc hfree => ?_⟩
  · exact hlatency.bounded t n before _ _ htarget (Sections.run_acts hrun) hcount
  · exact hsound.proceeds (sections_lawful conf) (hlatency.unblocked t n before hpc hlt)
  · obtain ⟨k, s', hk, hrun, hanswered⟩ := hlatency.alone t n before hpc
    obtain ⟨actions, f', hlength, hown, hall, rfl⟩ :=
      Sections.alone_of_run (w := none) (sections_lawful conf) h hfree.unhindered hrun
    exact ⟨actions, f', by omega, hown, hall, hanswered⟩

/-- A thread logs a record and exits, a second one waits for its flush, and a third one stops in
`threadsafe_producer` while the consumer is about to push the producer of the first one. -/
def demoBarred : List (Sections.LockedAction Action (Option ℕ)) :=
  List.flatten
    [[.act (.call 0 (.logUnchecked 0)), .act (.thread 0), .enter (some 0), .serve (some 0),
        .leave (some 0), .act (.produce 0 .written)],
      List.replicate 4 (.act (.thread 0)), [.act (.call 0 (.release .normal))],
      List.replicate 3 (.act (.thread 0)), [.act (.call 1 .flush)],
      List.replicate 5 (.act (.thread 1)), List.replicate 14 (.act .consumer),
      [.act (.call 2 (.logUnchecked 0)), .act (.thread 2), .enter (some 2)]]

/-- The consumer waits for the third thread, and without it answers the flush. -/
theorem flushWait_barred :
    ∃ f f' f'' actions, (locking demo).run { state := .started demo fun _ => .info } demoBarred =
        some f ∧ (sections demo).Barred f none ∧
      (locking demo).run f [.serve (some 2), .leave (some 2)] = some f' ∧
      (∀ b ∈ actions, (sections demo).actorOf b = none) ∧
      (locking demo).run f' actions = some f'' ∧ 1 ≤ f''.state.flushCompleted := by
  have hrun : ((locking demo).run { state := .started demo fun _ => .info } demoBarred).map
      (fun f => (f.state.flushCompleted, f.state.pc 1,
        decide ((sections demo).Proceeds f .consumer))) =
          some (0, .flushWait 1 [⟨.pooled .normal 0, 0⟩], false) := by
    decide +kernel
  have hleft : ((locking demo).run { state := .started demo fun _ => .info }
      (demoBarred ++ [.serve (some 2), .leave (some 2)])).map
      (fun f => (f.state.pc 1, f.holder (.registry .normal), f.holder (.registry .huge))) =
        some (.flushWait 1 [⟨.pooled .normal 0, 0⟩], none, none) := by
    decide +kernel
  obtain ⟨f, hf, hfacts⟩ := Option.map_eq_some_iff.mp hrun
  simp only [Prod.mk.injEq, decide_eq_false_iff_not] at hfacts
  obtain ⟨hcompleted, hpc, hstopped⟩ := hfacts
  rw [System.run_append, hf, Option.bind_some] at hleft
  obtain ⟨f', hf', hfree⟩ := Option.map_eq_some_iff.mp hleft
  simp only [Prod.mk.injEq] at hfree
  obtain ⟨hpc', hnormal, hhuge⟩ := hfree
  have hreach : (locking demo).Reachable f := .run (.initial ⟨_, ⟨_, rfl⟩, rfl⟩) hf
  have hbarred := ((flushWait_of_reachable hreach).proceeds 1 1 _ hpc (by omega)).resolve_left
    hstopped
  have hregistries : RegistriesFree f' := .of_none hnormal hhuge
  obtain ⟨actions, f'', -, hown, hserved, hanswered⟩ :=
    (flushWait_of_reachable (hreach.run hf')).alone 1 1 _ hpc' hregistries
  exact ⟨f, f', f'', actions, hf, hbarred, hf', hown, hserved, hanswered⟩

/-! ## What a call waits for -/

/-- A call that is not a shutdown is over after eleven accesses of its own, and with each it takes
and gives back one mutex at most, whatever the other threads and the consumer do. Unless it is a
flush whose request is made, it waits for nothing but a mutex, and whoever holds this leaves it in
two steps of its own. -/
structure CallWait (conf : Sealed) (f : Sections.Locked State (Option ℕ) Mutex) : Prop where
  proceeds : ∀ t outcome, f.state.pc t ≠ .idle → (f.state.pc t).waits = false →
    (sections conf).Proceeds f ((f.state.pc t).turn t outcome) ∨
      (sections conf).Barred f (some t)
  bounded : ∀ t actions f', (f.state.pc t).final? = none →
    (locking conf).run f actions = some f' →
    (∀ call, .call t call ∉ (sections conf).acts actions) →
    ((sections conf).acts actions).countP (fun a => a.thread? == some t) ≤ 11 ∧
      actions.countP (fun b => (sections conf).actorOf b = some t) ≤ 35
  returned : ∀ t actions f', (f.state.pc t).final? = none →
    (locking conf).run f actions = some f' →
    (∀ call, .call t call ∉ (sections conf).acts actions) →
    (f.state.pc t).ownSteps ≤
      ((sections conf).acts actions).countP (fun a => a.thread? == some t) →
    f'.state.pc t = .idle

theorem callWait_of_reachable
    (h : (locking conf).ReachableWhere (fun _ => (sections conf).Acts (·.Known conf)) f) :
    CallWait conf f := by
  have hfree := waitFree_of_reachable (Sections.reachableWhere_state h)
  have hsound := Sections.sound_of_reachable (sections_lawful conf) h.reachable
  refine ⟨fun t outcome hpc hwaits => ?_, fun t actions f' hfinal hrun hcalls => ?_,
    fun t actions f' hfinal hrun hcalls hcount => ?_⟩
  · have hthread : ((f.state.pc t).turn t outcome).thread? = some t := by
      cases f.state.pc t <;> rfl
    have hproceeds := hsound.proceeds (sections_lawful conf) (hfree.ready t outcome hpc hwaits)
    exact hthread ▸ hproceeds
  · have haccesses := hfree.bounded t _ _ hfinal (Sections.run_acts hrun) hcalls
    have hsteps := Sections.countP_le (w := some t) (sections_lawful conf) hrun
    have hsame : ((sections conf).acts actions).countP
        (fun a => (sections conf).actor a = some t) =
          ((sections conf).acts actions).countP (fun a => a.thread? == some t) :=
      List.countP_congr fun a _ => decide_eq_true_iff.trans beq_iff_eq.symm
    have hsilent := (f.place (some t)).silent_le
    exact ⟨haccesses, by omega⟩
  · exact hfree.returned t _ _ hfinal (Sections.run_acts hrun) hcalls hcount

/-- A thread has published its first record, a second one has stopped in `threadsafe_producer`, and
a third one is about to enter it. -/
def demoHeld : List (Sections.LockedAction Action (Option ℕ)) :=
  List.flatten
    [[.act (.call 0 (.log 0 .info)), .act (.thread 0), .act (.thread 0), .enter (some 0),
        .serve (some 0), .leave (some 0), .act (.produce 0 .written)],
      [.act (.call 1 (.log 0 .info)), .act (.thread 1), .act (.thread 1), .enter (some 1)],
      [.act (.call 2 (.log 0 .info)), .act (.thread 2), .act (.thread 2)]]

/-- The third thread waits for the second one; the first one is done after four accesses more. -/
theorem callWait_held :
    ∃ f f', (locking demo).run { state := .started demo fun _ => .info } demoHeld = some f ∧
      (sections demo).Barred f (some 2) ∧
      (locking demo).run f (List.replicate 4 (.act (.thread 0))) = some f' ∧
      f'.state.pc 0 = .idle := by
  have hrun : ((locking demo).run { state := .started demo fun _ => .info } demoHeld).map
      (fun f => (f.state.pc 0, f.state.pc 2, decide ((sections demo).Proceeds f (.thread 2)))) =
        some (.countEmitted ⟨.pooled .normal 0, 0⟩ false, .acquire .normal (.log 0), false) := by
    decide +kernel
  have hrest : (((locking demo).run { state := .started demo fun _ => .info } demoHeld).bind
      fun f => (locking demo).run f (List.replicate 4 (.act (.thread 0)))).isSome = true := by
    decide +kernel
  obtain ⟨f, hf, hfacts⟩ := Option.map_eq_some_iff.mp hrun
  simp only [Prod.mk.injEq, decide_eq_false_iff_not] at hfacts
  obtain ⟨hpc, hacquire, hstopped⟩ := hfacts
  rw [hf, Option.bind_some] at hrest
  obtain ⟨f', hf'⟩ := Option.isSome_iff_exists.mp hrest
  have hwait : CallWait demo f := by
    apply callWait_of_reachable
    refine Sections.reachableWhere_of_run (.initial ⟨_, ⟨_, rfl⟩, rfl⟩) hf ?_
    have hacts : (sections demo).acts demoHeld =
        [.call 0 (.log 0 .info), .thread 0, .thread 0, .thread 0, .produce 0 .written,
          .call 1 (.log 0 .info), .thread 1, .thread 1, .call 2 (.log 0 .info), .thread 2,
          .thread 2] := rfl
    rw [hacts]
    simp [Action.Known, demo]
  have hbarred := (hwait.proceeds 2 .written (by simp [hacquire]) (by rw [hacquire]; rfl))
  rw [hacquire] at hbarred
  refine ⟨f, f', hf, hbarred.resolve_left hstopped, hf', ?_⟩
  refine hwait.returned 0 _ _ (by rw [hpc]; rfl) hf' ?_ ?_
  · simp [Sections.acts, Sections.act?]
  · rw [hpc]
    exact Nat.le_refl 4

/-! ## How soon a record is taken -/

/-- How long a record waits once the consumer has been told of it: it is taken and written before
the consumer has made `takeSteps` accesses, whatever the threads do meanwhile; a write to a sink
returns. Only an owed wake-up can keep the consumer from them, or a thread in `registry.mutex`,
which leaves it in two steps, and it needs no thread otherwise. -/
structure TakeWait (conf : Sealed) (f : Sections.Locked State (Option ℕ) Mutex) : Prop where
  announced : ∀ r, Returned f.state r → (∀ t, (f.state.pc t).phase r.producer ≠ .marked) →
    (∀ stage, f.state.consumer.visit? ≠ some (r.producer, stage)) → Announced f.state r
  bounded : ∀ r actions f', Published f.state r → Announced f.state r →
    (∀ a ∈ (sections conf).acts actions, a.Stays conf) →
    (locking conf).run f actions = some f' →
    conf.takeSteps ≤ ((sections conf).acts actions).count .consumer →
    Taken f'.state r ∧ writesOf r f'.state.out = targetsOf conf f'.state r
  proceeds : ∀ r, Announced f.state r → ¬ Taken f.state r → ¬ Waking f.state →
    (sections conf).Proceeds f .consumer ∨ (sections conf).Barred f none
  alone : ∀ r, Published f.state r → Announced f.state r → ¬ Waking f.state → RegistriesFree f →
    ∃ actions f', actions.length ≤ 3 * conf.takeSteps + 1 ∧
      (∀ b ∈ actions, (sections conf).actorOf b = none) ∧
      (locking conf).run f actions = some f' ∧
      Taken f'.state r ∧ writesOf r f'.state.out = targetsOf conf f'.state r

theorem takeWait_of_reachable
    (h : (locking conf).ReachableWhere (fun _ => (sections conf).Acts (·.Stays conf)) f) :
    TakeWait conf f := by
  have hlatency := takeLatency_of_reachable (Sections.reachableWhere_state h)
  have hsound := Sections.sound_of_reachable (sections_lawful conf) h.reachable
  refine ⟨hlatency.announced, fun r actions f' hpublished hannounced hacts hrun hcount => ?_,
    fun r hannounced htaken hquiet => ?_, fun r hpublished hannounced hquiet hfree => ?_⟩
  · exact hlatency.bounded r _ _ hpublished hannounced hacts (Sections.run_acts hrun) hcount
  · exact hsound.proceeds (sections_lawful conf) (hlatency.unblocked r hannounced htaken hquiet)
  · obtain ⟨k, s', hk, hrun, htaken, hwritten⟩ := hlatency.alone r hpublished hannounced hquiet
    obtain ⟨actions, f', hlength, hown, hall, rfl⟩ :=
      Sections.alone_of_run (w := none) (sections_lawful conf) h.reachable hfree.unhindered hrun
    exact ⟨actions, f', by omega, hown, hall, htaken, hwritten⟩

/-- A thread has published its record and signalled, and a second one has stopped in
`set_global_level`. -/
def demoSignalled : List (Sections.LockedAction Action (Option ℕ)) :=
  List.flatten
    [[.act (.call 0 (.log 0 .info)), .act (.thread 0), .act (.thread 0), .enter (some 0),
        .serve (some 0), .leave (some 0), .act (.produce 0 .written)],
      List.replicate 4 (.act (.thread 0)),
      [.act (.call 1 (.setGlobalLevel .warn)), .enter (some 1)]]

/-- The consumer takes the record alone. -/
theorem takeWait_signalled :
    ∃ f f' actions, (locking demo).run { state := .started demo fun _ => .info } demoSignalled =
        some f ∧ f.holder .control = some (some 1) ∧
      ¬ Taken f.state ⟨.pooled .normal 0, 0⟩ ∧ actions.length ≤ 3 * demo.takeSteps + 1 ∧
      (∀ b ∈ actions, (sections demo).actorOf b = none) ∧
      (locking demo).run f actions = some f' ∧
      writesOf ⟨.pooled .normal 0, 0⟩ f'.state.out =
        targetsOf demo f'.state ⟨.pooled .normal 0, 0⟩ := by
  have hrun : ((locking demo).run { state := .started demo fun _ => .info } demoSignalled).map
      (fun f => (((f.state.registry .normal).activeWords 0).getLsbD 0,
        (f.state.producer (.pooled .normal 0)).queue.head,
        (f.state.producer (.pooled .normal 0)).queue.tail, f.state.pc 0, f.state.pc 1)) =
          some (true, 0, 1, .idle, .setGlobalLevel .warn) := by
    decide +kernel
  have hholders : ((locking demo).run { state := .started demo fun _ => .info } demoSignalled).map
      (fun f => (f.holder .control, f.holder (.registry .normal), f.holder (.registry .huge))) =
        some (some (some 1), none, none) := by
    decide +kernel
  obtain ⟨f, hf, hfacts⟩ := Option.map_eq_some_iff.mp hrun
  simp only [Prod.mk.injEq] at hfacts
  obtain ⟨hbit, hhead, htail, hidle, hlevel⟩ := hfacts
  rw [hf, Option.map_some, Option.some.injEq, Prod.mk.injEq, Prod.mk.injEq] at hholders
  obtain ⟨hcontrol, hnormal, hhuge⟩ := hholders
  have hacts : (sections demo).acts demoSignalled =
      [.call 0 (.log 0 .info), .thread 0, .thread 0, .thread 0, .produce 0 .written, .thread 0,
        .thread 0, .thread 0, .thread 0, .call 1 (.setGlobalLevel .warn)] := rfl
  have hreach : (locking demo).ReachableWhere (fun _ => (sections demo).Acts (·.Stays demo)) f := by
    refine Sections.reachableWhere_of_run (.initial ⟨_, ⟨_, rfl⟩, rfl⟩) hf ?_
    rw [hacts]
    simp [Action.Stays, Action.Known, demo]
  have hquiet : ¬ Waking f.state := by
    rintro ⟨t, waker, hpc⟩
    by_cases hzero : t = 0
    · rw [hzero, hidle] at hpc
      contradiction
    by_cases hone : t = 1
    · rw [hone, hlevel] at hpc
      contradiction
    rw [run_pc_of_ne (Sections.run_acts hf)
      (by simp [hacts, Action.thread?, Ne.symm hzero, Ne.symm hone])] at hpc
    contradiction
  have hfree : RegistriesFree f := .of_none hnormal hhuge
  have hpublished : Published f.state ⟨.pooled .normal 0, 0⟩ :=
    Nat.lt_of_lt_of_eq Nat.zero_lt_one htail.symm
  have huntaken : ¬ Taken f.state ⟨.pooled .normal 0, 0⟩ := by
    rw [Taken, hhead]
    exact Nat.lt_irrefl 0
  obtain ⟨actions, f', hlength, hown, hserved, -, hwritten⟩ :=
    (takeWait_of_reachable hreach).alone _ hpublished (.inr hbit) hquiet hfree
  exact ⟨f, f', actions, hf, hcontrol, huntaken, hlength, hown, hserved, hwritten⟩

/-! ## Calls return -/

/-- The sections of the program with its waits and notifications. -/
def sleeperSections (conf : Sealed) : Sections (waiting conf).sleepy (Option ℕ) Mutex :=
  Sections.sleepy (W := waiting conf) (sections conf)

/-- The program with waits, notifications and mutexes. -/
def mutexed (conf : Sealed) : System
    (Sections.Locked (Waits.Sleepy State (Option ℕ) Word) (Option ℕ) Mutex)
    (Sections.LockedAction (Waits.SleepyAction Action (Option ℕ)) (Option ℕ)) :=
  (sleeperSections conf).locked

theorem guard_apart {actor : Option ℕ} {mutex : Mutex} (h : s.guard actor = some mutex) :
    s.waits actor = none := by
  cases actor with
  | none =>
      obtain ⟨round, resume, p, hc, -⟩ := guard_consumer h
      simp only [State.waits, hc]
  | some t =>
      rw [State.guard] at h
      simp only [State.waits]
      cases hpc : s.pc t with
      | flushWait | awaitFlushers =>
          rw [hpc] at h
          contradiction
      | _ => rfl

theorem sleeperSections_lawful (conf : Sealed) : (sleeperSections conf).Lawful :=
  Sections.sleepy_lawful (W := waiting conf) (sections_lawful conf) rfl fun _ _ _ => guard_apart

variable {σ : ℕ → Sections.Locked (Waits.Sleepy State (Option ℕ) Word) (Option ℕ) Mutex}

/-- An awake thread that no mutex bars is not put off for ever, and some day it gets a mutex that is
free again and again. -/
structure GetsTurns (conf : Sealed)
    (σ : ℕ → Sections.Locked (Waits.Sleepy State (Option ℕ) Word) (Option ℕ) Mutex) (t : ℕ) :
    Prop where
  thread : (mutexed conf).WeaklyFair σ (·.Of (·.Of (· = .thread t)))
  produce : (mutexed conf).WeaklyFair σ (·.Of (·.Of fun a => ∃ outcome, a = .produce t outcome))
  enter : (mutexed conf).StronglyFair σ (· = .enter (some t))

/-- The same of the consumer; no owed notification or comparison before a sleep is put off for ever,
and nobody is stopped for ever while it holds a mutex. -/
structure Running (conf : Sealed)
    (σ : ℕ → Sections.Locked (Waits.Sleepy State (Option ℕ) Word) (Option ℕ) Mutex) : Prop where
  consumer : (mutexed conf).WeaklyFair σ (·.Of (·.Of (· = .consumer)))
  enter : (mutexed conf).StronglyFair σ (· = .enter none)
  rousing : ∀ actor helper, (mutexed conf).WeaklyFair σ (·.Of (Waits.rouses actor helper))
  holders : (sleeperSections conf).GoesOn σ

section Behaviour

variable {kind : Action → Prop} (hstart : (mutexed conf).Initial (σ 0))
  (h : (mutexed conf).Behaviour ((sleeperSections conf).Acts (·.Acts kind)) σ)
  (hrunning : Running conf σ)
include hstart h hrunning

/-- Mutexes put no thread off for ever. -/
theorem GetsTurns.scheduled (hturns : GetsTurns conf σ t) :
    Scheduled conf (fun k => (σ k).state) t where
  thread := by
    refine Sections.weaklyFair_act (waiting_lawful conf) (sleeperSections_lawful conf)
      (.initial hstart) h hrunning.holders hturns.enter ?_ ?_ hturns.thread
    · rintro _ rfl
      rfl
    · rintro s _ b rfl hready hb hnext
      exact only_thread hready hb hnext
  produce := by
    refine Sections.weaklyFair_act (waiting_lawful conf) (sleeperSections_lawful conf)
      (.initial hstart) h hrunning.holders hturns.enter ?_ ?_ hturns.produce
    · rintro _ ⟨outcome, rfl⟩
      rfl
    · rintro s _ b ⟨outcome, rfl⟩ hready hb hnext
      exact only_produce hready hb hnext

theorem Running.prompt : Prompt conf fun k => (σ k).state where
  consumer := by
    refine Sections.weaklyFair_act (waiting_lawful conf) (sleeperSections_lawful conf)
      (.initial hstart) h hrunning.holders hrunning.enter ?_ ?_ hrunning.consumer
    · rintro _ rfl
      rfl
    · rintro s _ b rfl - hb -
      cases b with
      | consumer => rfl
      | _ => contradiction
  rousing := Sections.rousing_state (waiting_lawful conf) (sleeperSections_lawful conf)
    (fun _ _ _ => guard_apart) (.initial hstart) h hrunning.holders hrunning.rousing

end Behaviour

/-- Every call but a shutdown returns, if the calling thread and the consumer are not put off for
ever, nor whoever holds a mutex, whatever all others do or leave undone. A write to a sink
returns. -/
theorem call_completes (hstart : (mutexed conf).Initial (σ 0))
    (h : (mutexed conf).Behaviour ((sleeperSections conf).Acts (·.Acts (·.Known conf))) σ)
    (hturns : GetsTurns conf σ t) (hrunning : Running conf σ) :
    LeadsTo (fun k => (σ k).state.state) (fun s => (s.pc t).final? = none)
      fun s => s.pc t = .idle := by
  have hinitial : (sleeping conf).Initial (σ 0).state :=
    (sleeperSections conf).simulation.initial _ hstart
  exact call_returns (σ := fun k => (σ k).state) hinitial (Sections.behaviour_state h)
    (hturns.scheduled hstart h hrunning) (hrunning.prompt hstart h)

/-- Two threads log for the first time and meet in `threadsafe_producer`. The first one goes no
further than that, the consumer takes the record of the other one and falls asleep. -/
def demoMeet : List (Sections.LockedAction (Waits.SleepyAction Action (Option ℕ)) (Option ℕ)) :=
  List.flatten
    [[.act (.act (.call 1 (.log 0 .info))), .act (.act (.thread 1)), .act (.act (.thread 1)),
        .enter (some 1)],
      [.act (.act (.call 0 (.log 0 .info))), .act (.act (.thread 0)), .act (.act (.thread 0))],
      [.serve (some 1), .leave (some 1), .enter (some 0), .serve (some 0), .leave (some 0)],
      [.act (.act (.produce 0 .written))], List.replicate 4 (.act (.act (.thread 0))),
      [.act (.notify (some 0) 0)], List.replicate 20 (.act (.act .consumer)),
      [.act (.load none), .act (.compare none)]]

/-- A thread that takes no step stays where it is and owes nothing new. -/
theorem untouched_of_run
    {g g' : Sections.Locked (Waits.Sleepy State (Option ℕ) Word) (Option ℕ) Mutex}
    {actions : List (Sections.LockedAction (Waits.SleepyAction Action (Option ℕ)) (Option ℕ))}
    (hrun : (mutexed conf).run g actions = some g')
    (ht : ∀ b ∈ actions, (sleeperSections conf).actorOf b ≠ some t) :
    g'.state.state.pc t = g.state.state.pc t ∧
      g'.state.owes (some t) = g.state.owes (some t) := by
  induction actions generalizing g with
  | nil =>
      obtain rfl : g = g' := by simpa [System.run] using hrun
      exact ⟨rfl, rfl⟩
  | cons b actions ih =>
      obtain ⟨next, hnext, hrest⟩ := Option.bind_eq_some_iff.mp hrun
      obtain ⟨hpc, howes⟩ := ih hrest fun c hc => ht c (List.mem_cons_of_mem _ hc)
      have hb := ht b List.mem_cons_self
      rw [hpc, howes]
      rcases Sections.lockedStep_state hnext with ⟨c, hact, hstep⟩ | ⟨-, hstate⟩
      · have hc : Sections.actorOfSleepy (waiting conf) c ≠ some t := by
          cases b with
          | act =>
              obtain rfl := Option.some.inj hact
              exact hb
          | serve u =>
              obtain rfl := Option.some.inj hact
              exact ((sleeperSections_lawful conf).own u).trans_ne hb
          | enter | leave => contradiction
        refine ⟨?_, (Sections.others_of_sleepyStep (Waits.sleepyStep_cases hstep) hc).1⟩
        rcases Waits.sleepyStep_state hstep with ⟨a, rfl, hbase⟩ | ⟨-, hsame⟩
        · exact step_pc_of_ne hbase hc
        · rw [hsame]
      · rw [hstate]
        exact ⟨rfl, rfl⟩

/-- What can still happen when the consumer sleeps, nobody owes a notification and all mutexes are
free: nothing but steps of threads. -/
theorem running_of_rest {n : ℕ}
    {g : Sections.Locked (Waits.Sleepy State (Option ℕ) Word) (Option ℕ) Mutex}
    (hg : (mutexed conf).Reachable g) (hrest : ∀ k, n ≤ k → σ k = g) {old : ℕ}
    (hasleep : g.state.mode none = .asleep old) (howes : ∀ actor, g.state.owes actor = none)
    (hfree : ∀ mutex, g.holder mutex = none)
    (hwaits : ∀ t, g.state.state.waits (some t) = none) : Running conf σ := by
  have hsound := Sections.sound_of_reachable (sleeperSections_lawful conf) hg
  have houtside : ∀ actor, g.place actor = .outside := fun actor =>
    hsound.outside fun mutex => by simp [hfree]
  have hconsumer : ((sleeping conf).step g.state (.act .consumer)).isSome ≠ true := by
    intro hready
    cases hasleep.symm.trans (Waits.act_enabled.mp hready).1.1
  refine ⟨?_, ?_, fun actor helper => ?_, fun u => ?_, fun u => ?_⟩
  · refine System.weaklyFair_of_rest hrest ?_
    rintro _ ⟨_, ⟨_, rfl, rfl⟩, rfl⟩ hready
    exact hconsumer (Sections.act_ready hready)
  · refine System.stronglyFair_of_rest hrest ?_
    rintro _ rfl hready
    exact hconsumer (Sections.enter_ready hready)
  · refine System.weaklyFair_of_rest hrest ?_
    rintro _ ⟨c, hc, rfl⟩ hready
    obtain ⟨g', hstep⟩ := Option.isSome_iff_exists.mp (Sections.act_ready hready)
    cases helper with
    | none =>
        obtain rfl := hc
        obtain ⟨old', word, stays, hmode, hwaiting⟩ := Sections.waits_of_compare hstep
        cases actor with
        | none => cases hasleep.symm.trans hmode
        | some t => cases (hwaits t).symm.trans hwaiting
    | some u =>
        obtain ⟨picked, rfl⟩ := hc
        obtain ⟨word, howed⟩ := Sections.owes_of_notify hstep
        cases (howes u).symm.trans howed
  · refine System.weaklyFair_of_rest hrest ?_
    rintro _ rfl
    rw [(Sections.rest_of_outside (houtside u)).1]
    exact Bool.false_ne_true
  · refine System.weaklyFair_of_rest hrest ?_
    rintro _ rfl
    rw [(Sections.rest_of_outside (houtside u)).2]
    exact Bool.false_ne_true

theorem getsTurns_of_rest {n : ℕ}
    {g : Sections.Locked (Waits.Sleepy State (Option ℕ) Word) (Option ℕ) Mutex}
    (hrest : ∀ k, n ≤ k → σ k = g) (hidle : g.state.state.pc t = .idle) : GetsTurns conf σ t := by
  have hbase : ∀ a, (a = .thread t ∨ ∃ outcome, a = .produce t outcome) →
      step conf g.state.state a = none := by
    rintro _ (rfl | ⟨outcome, rfl⟩)
    · simp [step, threadStep, hidle]
    · simp [step, hidle]
  have hstuck : ∀ a, (a = .thread t ∨ ∃ outcome, a = .produce t outcome) →
      ((sleeping conf).step g.state (.act a)).isSome ≠ true := by
    intro a ha hready
    obtain ⟨s', hnext⟩ := Option.isSome_iff_exists.mp (Waits.act_enabled.mp hready).2
    exact Option.some_ne_none s' (hnext.symm.trans (hbase a ha))
  refine ⟨?_, ?_, ?_⟩
  · refine System.weaklyFair_of_rest hrest ?_
    rintro _ ⟨_, ⟨a, ha, rfl⟩, rfl⟩ hready
    exact hstuck a (.inl ha) (Sections.act_ready hready)
  · refine System.weaklyFair_of_rest hrest ?_
    rintro _ ⟨_, ⟨a, ha, rfl⟩, rfl⟩ hready
    exact hstuck a (.inr ha) (Sections.act_ready hready)
  · refine System.stronglyFair_of_rest hrest ?_
    rintro _ rfl hready
    exact hstuck _ (.inl rfl) (Sections.enter_ready hready)

/-- After these steps nobody does anything any more. -/
def demoMet : ℕ → Sections.Locked (Waits.Sleepy State (Option ℕ) Word) (Option ℕ) Mutex :=
  (mutexed demo).trace { state := { state := .started demo fun _ => .info } }
    fun k => demoMeet.getD k (.leave none)

theorem demoMet_known (k : ℕ) : (sleeperSections demo).Acts (·.Acts (·.Known demo))
    (demoMeet.getD k (.leave none)) := by
  have hacts : ((sleeperSections demo).acts demoMeet).filterMap Waits.SleepyAction.act? =
      [.call 1 (.log 0 .info), .thread 1, .thread 1, .call 0 (.log 0 .info), .thread 0, .thread 0,
        .thread 1, .thread 0, .produce 0 .written] ++ List.replicate 4 (.thread 0) ++
          List.replicate 20 .consumer := rfl
  have hknown : ∀ a ∈ ((sleeperSections demo).acts demoMeet).filterMap Waits.SleepyAction.act?,
      a.Known demo := by
    rw [hacts]
    simp [Action.Known, demo]
  by_cases hk : k < demoMeet.length
  · rw [List.getD_eq_getElem _ _ hk]
    rintro c hc a rfl
    exact hknown a (List.mem_filterMap.mpr
      ⟨_, List.mem_filterMap.mpr ⟨_, List.getElem_mem hk, hc⟩, rfl⟩)
  · rw [List.getD_eq_default _ _ (Nat.le_of_not_lt hk)]
    rintro c hc
    contradiction

/-- The second thread finds the mutex taken, and returns all the same. -/
theorem call_completes_met :
    (demoMet 7).holder (.registry .normal) = some (some 1) ∧
      (demoMet 7).state.state.pc 0 = .acquire .normal (.log 0) ∧
      ∃ j, 7 ≤ j ∧ (demoMet j).state.state.pc 0 = .idle := by
  have hmodes : ((mutexed demo).run { state := { state := .started demo fun _ => .info } }
      demoMeet).map (fun g => (g.state.mode none, g.state.owes none, g.state.owes (some 0),
        g.state.owes (some 1))) = some (.asleep 1, none, none, none) := by
    decide +kernel
  have hplaces : ((mutexed demo).run { state := { state := .started demo fun _ => .info } }
      demoMeet).map (fun g => (g.place none, g.holder (.registry .normal),
        g.holder (.registry .huge), g.holder .control)) = some (.outside, none, none, none) := by
    decide +kernel
  have hpcs : ((mutexed demo).run { state := { state := .started demo fun _ => .info } }
      demoMeet).map (fun g => (g.state.state.pc 0, g.state.state.pc 1)) =
        some (.idle, .produce 0 (.pooled .normal 0)) := by
    decide +kernel
  obtain ⟨g, hg, hfacts⟩ := Option.map_eq_some_iff.mp hmodes
  simp only [Prod.mk.injEq] at hfacts
  obtain ⟨hasleep, hconsumer, hzero, hone⟩ := hfacts
  rw [hg, Option.map_some, Option.some.injEq] at hplaces hpcs
  simp only [Prod.mk.injEq] at hplaces hpcs
  obtain ⟨hplace, hnormal, hhuge, hcontrol⟩ := hplaces
  obtain ⟨hidle, hproduce⟩ := hpcs
  have hother : ∀ t, t ≠ 0 → t ≠ 1 →
      g.state.state.pc t = .idle ∧ g.state.owes (some t) = none := by
    intro t ht ht'
    have hactors : demoMeet.map (sleeperSections demo).actorOf =
        List.replicate 4 (some 1) ++ List.replicate 3 (some 0) ++ List.replicate 2 (some 1) ++
          List.replicate 9 (some 0) ++ List.replicate 22 none := rfl
    refine untouched_of_run hg fun b hb hactor => ?_
    have hmem := List.mem_map_of_mem (f := (sleeperSections demo).actorOf) hb
    rw [hactors, hactor] at hmem
    simp [ht, ht'] at hmem
  have hrest : ∀ k, demoMeet.length ≤ k → demoMet k = g := by
    refine fun k hk => System.trace_getD hg ?_ hk
    simp only [mutexed, Sections.locked, Sections.lockedStep, hplace]
  have hinitial : (mutexed demo).Initial (demoMet 0) := ⟨_, ⟨_, ⟨_, rfl⟩, rfl⟩, rfl⟩
  have hrunning : Running demo demoMet := by
    refine running_of_rest (.run (.initial hinitial) hg) hrest hasleep ?_ ?_ ?_
    · rintro (_ | t)
      · exact hconsumer
      · by_cases ht : t = 0
        · exact ht ▸ hzero
        by_cases ht' : t = 1
        · exact ht' ▸ hone
        exact (hother t ht ht').2
    · rintro ((_ | _) | _)
      · exact hnormal
      · exact hhuge
      · exact hcontrol
    · intro t
      have hpc : g.state.state.pc t = .idle ∨
          g.state.state.pc t = .produce 0 (.pooled .normal 0) := by
        by_cases ht : t = 0
        · exact .inl (ht ▸ hidle)
        by_cases ht' : t = 1
        · exact .inr (ht' ▸ hproduce)
        exact .inl (hother t ht ht').1
      rcases hpc with hpc | hpc <;> simp only [State.waits, hpc]
  have hheld : (demoMet 7).holder (.registry .normal) = some (some 1) := by decide +kernel
  have hacquire : (demoMet 7).state.state.pc 0 = .acquire .normal (.log 0) := by decide +kernel
  refine ⟨hheld, hacquire, ?_⟩
  exact call_completes hinitial (System.trace_behaviour demoMet_known)
    (getsTurns_of_rest hrest hidle) hrunning 7 (congrArg ThreadPc.final? hacquire)

end Unlog.Handoff
