import Unlog.Handoff.Delivery
import Unlog.Handoff.Termination
import Unlog.Handoff.Wait

/-! # What the program comes to

In every fair behaviour of the program with its waits and notifications, calls return, records
are written and shutdowns end. -/

namespace Unlog.Handoff

open Library

variable {conf : Sealed} {s s' : State} {a : Action} {t : ℕ} {r : RecordId}
  {final : RuntimeLifecycle} {kind : Action → Prop}
  {σ : ℕ → Waits.Sleepy State (Option ℕ) Word}

/-! ## Fairness -/

/-- An awake thread is not put off for ever, inside the callback of `produce` and outside it. -/
structure Scheduled (conf : Sealed) (σ : ℕ → Waits.Sleepy State (Option ℕ) Word) (t : ℕ) :
    Prop where
  thread : (sleeping conf).WeaklyFair σ (·.Of (· = .thread t))
  produce : (sleeping conf).WeaklyFair σ (·.Of fun a => ∃ outcome, a = .produce t outcome)

/-- The awake consumer is not put off for ever, and nor is an owed notification or a comparison
before a sleep. -/
structure Prompt (conf : Sealed) (σ : ℕ → Waits.Sleepy State (Option ℕ) Word) : Prop where
  consumer : (sleeping conf).WeaklyFair σ (·.Of (· = .consumer))
  rousing : (waiting conf).Rousing σ

theorem only_thread {b : Action} (hstep : (step conf s (.thread t)).isSome = true)
    (hb : b.thread? = some t) (hnext : (step conf s b).isSome = true) : b = .thread t := by
  obtain ⟨s', hnext⟩ := Option.isSome_iff_exists.mp hnext
  refine thread_of_step hnext hb ?_ ?_
  · intro hpc
    simp [step, threadStep, hpc] at hstep
  · intro channel p hpc
    simp [step, threadStep, hpc] at hstep

theorem produce_enabled {outcome other : Outcome}
    (hstep : (step conf s (.produce t outcome)).isSome = true) :
    (step conf s (.produce t other)).isSome = true := by
  simp only [step] at hstep ⊢
  split at hstep
  case h_1 channel p hpc => rfl
  case h_2 => contradiction

theorem only_produce {b : Action} {outcome : Outcome}
    (hstep : (step conf s (.produce t outcome)).isSome = true) (hb : b.thread? = some t)
    (hnext : (step conf s b).isSome = true) : ∃ other, b = .produce t other := by
  obtain ⟨channel, p, hpc⟩ : ∃ channel p, s.pc t = .produce channel p := by
    simp only [step] at hstep
    split at hstep
    case h_1 channel p hpc => exact ⟨channel, p, hpc⟩
    case h_2 => contradiction
  cases b with
  | produce other outcome =>
      obtain rfl := Option.some.inj hb
      exact ⟨outcome, rfl⟩
  | thread | call =>
      obtain rfl := Option.some.inj hb
      simp [step, threadStep, hpc] at hnext
  | consumer => contradiction

section Behaviour

variable (hstart : (sleeping conf).Initial (σ 0)) (h : (sleeping conf).Behaviour (·.Acts kind) σ)
  (hprompt : Prompt conf σ)
include hstart

theorem started_state : ∃ level, (σ 0).state = .started conf level := by
  obtain ⟨s, ⟨level, rfl⟩, heq⟩ := hstart
  exact ⟨level, congrArg Waits.Sleepy.state heq⟩

theorem known_start : (handoff conf).ReachableWhere (fun _ a => a.Known conf) (σ 0).state := by
  obtain ⟨level, hlevel⟩ := started_state hstart
  rw [hlevel]
  exact .initial ⟨level, rfl⟩

include h hprompt

/-- Falling asleep puts no thread off for ever. -/
theorem Scheduled.fairTo (hfair : Scheduled conf σ t) : FairTo conf (fun k => (σ k).state) t where
  thread := by
    refine Waits.weaklyFair_state (waiting_lawful conf) (.initial hstart) h hprompt.rousing
      (w := some t) ?_ ?_ hfair.thread
    · rintro _ rfl
      rfl
    · rintro s _ b rfl hisSome hb hnext
      exact only_thread hisSome hb hnext
  produce := by
    refine Waits.weaklyFair_state (waiting_lawful conf) (.initial hstart) h hprompt.rousing
      (w := some t) ?_ ?_ hfair.produce
    · rintro _ ⟨outcome, rfl⟩
      rfl
    · rintro s _ b ⟨outcome, rfl⟩ hisSome hb hnext
      exact only_produce hisSome hb hnext

theorem Prompt.consumer_fair :
    (handoff conf).WeaklyFair (fun k => (σ k).state) (· = .consumer) := by
  refine Waits.weaklyFair_state (waiting_lawful conf) (.initial hstart) h hprompt.rousing
    (w := none) ?_ ?_ hprompt.consumer
  · rintro _ rfl
    rfl
  · rintro s _ b rfl - hb -
    cases b with
    | consumer => rfl
    | _ => contradiction

end Behaviour

/-! ## A schedule -/

/-- The turns of an actor. -/
def demoTurn (actor : Option ℕ) : ℕ → Waits.SleepyAction Action (Option ℕ)
  | 0 => .act (actor.elim .consumer .thread)
  | 1 => .act (actor.elim .consumer (.produce · .written))
  | 2 => .load actor
  | 3 => .compare actor
  | _ => .notify actor 0

def demoActor : ℕ → Option ℕ
  | 0 => none
  | t + 1 => some t

/-- After the first actions, all actors have all their turns again and again. -/
def demoTurns (first : List (Waits.SleepyAction Action (Option ℕ))) (k : ℕ) :
    Waits.SleepyAction Action (Option ℕ) :=
  (first[k]?).getD (demoTurn (demoActor (k.unpair.1 / 5)) (k.unpair.1 % 5))

variable {first : List (Waits.SleepyAction Action (Option ℕ))}

theorem demoTurns_recurs (actor : Option ℕ) (turn : ℕ) (hturn : turn < 5) :
    System.Recurs (demoTurns first) (· = demoTurn actor turn) := by
  obtain ⟨n, rfl⟩ : ∃ n, demoActor n = actor := by
    cases actor with
    | none => exact ⟨0, rfl⟩
    | some t => exact ⟨t + 1, rfl⟩
  intro k
  have hle := Nat.right_le_pair (5 * n + turn) (max k first.length)
  have hnone : first[Nat.pair (5 * n + turn) (max k first.length)]? = none :=
    List.getElem?_eq_none ((le_max_right _ _).trans hle)
  have hn : (5 * n + turn) / 5 = n := by omega
  have hmod : (5 * n + turn) % 5 = turn := by omega
  refine ⟨Nat.pair (5 * n + turn) (max k first.length), (le_max_left _ _).trans hle, ?_⟩
  rw [demoTurns, hnone, Option.getD_none, Nat.unpair_pair, hn, hmod]

/-- The actions of the schedule after the first ones. -/
theorem demoTurns_acts (hfirst : ∀ b ∈ first, b.Acts kind) (hconsumer : kind .consumer)
    (hthread : ∀ t, kind (.thread t)) (hproduce : ∀ t, kind (.produce t .written)) (k : ℕ) :
    (demoTurns first k).Acts kind := by
  rw [demoTurns]
  cases hk : first[k]? with
  | some b => exact hfirst b (List.mem_of_getElem? hk)
  | none =>
      rw [Option.getD_none]
      generalize demoActor (k.unpair.1 / 5) = actor
      intro a ha
      rcases h : k.unpair.1 % 5 with _ | _ | _ | _ | _ <;> rw [h] at ha <;>
        simp only [demoTurn] at ha <;> cases actor <;> cases ha
      · exact hconsumer
      · exact hthread _
      · exact hconsumer
      · exact hproduce _

section

variable (f : Waits.Sleepy State (Option ℕ) Word)

theorem demoTurns_scheduled (t : ℕ) :
    Scheduled conf ((sleeping conf).trace f (demoTurns first)) t where
  thread := by
    refine (demoTurns_recurs (some t) 0 (by decide)).weaklyFair ⟨_, rfl, rfl⟩ ?_
    rintro g _ ⟨_, rfl, rfl⟩
    exact id
  produce := by
    refine (demoTurns_recurs (some t) 1 (by decide)).weaklyFair
      ⟨_, ⟨.written, rfl⟩, rfl⟩ ?_
    rintro g _ ⟨_, ⟨outcome, rfl⟩, rfl⟩ hisSome
    obtain ⟨hawake, hstep⟩ := Waits.act_enabled.mp hisSome
    exact Waits.act_enabled.mpr ⟨hawake, produce_enabled hstep⟩

theorem demoTurns_prompt : Prompt conf ((sleeping conf).trace f (demoTurns first)) where
  consumer := by
    refine (demoTurns_recurs none 0 (by decide)).weaklyFair ⟨_, rfl, rfl⟩ ?_
    rintro g _ ⟨_, rfl, rfl⟩
    exact id
  rousing actor helper := by
    cases helper with
    | none =>
        refine (demoTurns_recurs actor 3 (by decide)).weaklyFair rfl ?_
        rintro g _ rfl
        exact id
    | some u =>
        refine (demoTurns_recurs u 4 (by decide)).weaklyFair ⟨0, rfl⟩ ?_
        rintro g _ ⟨picked, rfl⟩ hisSome
        exact Waits.notify_first hisSome

end

/-- The program under this schedule. -/
def demoRun (first : List (Waits.SleepyAction Action (Option ℕ))) :
    ℕ → Waits.Sleepy State (Option ℕ) Word :=
  (sleeping demo).trace { state := .started demo fun _ => .info } (demoTurns first)

theorem demoRun_initial : (sleeping demo).Initial (demoRun first 0) :=
  ⟨_, ⟨fun _ => .info, rfl⟩, rfl⟩

theorem demoRun_behaviour (hfirst : ∀ b ∈ first, b.Acts kind) (hconsumer : kind .consumer)
    (hthread : ∀ t, kind (.thread t)) (hproduce : ∀ t, kind (.produce t .written)) :
    (sleeping demo).Behaviour (·.Acts kind) (demoRun first) :=
  System.trace_behaviour (demoTurns_acts hfirst hconsumer hthread hproduce)

/-! ## The guarantees -/

/-- Where a critical section is one access, every call but a shutdown returns, if the calling thread
and the consumer are not put off for ever, whatever all others do or leave undone. -/
theorem call_returns (hstart : (sleeping conf).Initial (σ 0))
    (h : (sleeping conf).Behaviour (·.Acts (·.Known conf)) σ) (hfair : Scheduled conf σ t)
    (hprompt : Prompt conf σ) :
    LeadsTo (fun k => (σ k).state) (fun s => (s.pc t).final? = none) fun s => s.pc t = .idle :=
  leadsTo_idle (known_start hstart) (Waits.behaviour_state h) (hfair.fairTo hstart h hprompt)
    (hprompt.consumer_fair hstart h)

/-- While nobody shuts the runtime down, every record that is published is written some day, once
to each sink of its route, whether or not anybody calls `flush`. A critical section is one access,
as under a fair mutex, and a write to a sink returns. -/
theorem eventually_written (hstart : (sleeping conf).Initial (σ 0))
    (h : (sleeping conf).Behaviour (·.Acts (·.Stays conf)) σ)
    (hfair : ∀ t, Scheduled conf σ t) (hprompt : Prompt conf σ) :
    LeadsTo (fun k => (σ k).state) (fun s => Published s r)
      fun s => Taken s r ∧ writesOf r s.out = targetsOf conf s r :=
  leadsTo_written (started_state hstart) (Waits.behaviour_state h)
    (fun t => (hfair t).fairTo hstart h hprompt) (hprompt.consumer_fair hstart h)

/-- A thread has published its first record of the demo runtime. -/
def demoPublished : List Action :=
  [.call 0 (.log 0 .info), .thread 0, .thread 0, .thread 0, .produce 0 .written]

/-- The record of the demo run is taken and written. -/
theorem eventually_written_record : ∃ j,
    Taken (demoRun (demoPublished.map .act) j).state ⟨.pooled .normal 0, 0⟩ ∧
      writesOf ⟨.pooled .normal 0, 0⟩ (demoRun (demoPublished.map .act) j).state.out =
        targetsOf demo (demoRun (demoPublished.map .act) j).state ⟨.pooled .normal 0, 0⟩ := by
  have hfirst : ∀ b : Waits.SleepyAction Action (Option ℕ), b ∈ demoPublished.map .act →
      b.Acts (Action.Stays demo) := by
    rintro b hb a rfl
    simp only [demoPublished, List.map_cons, List.map_nil, List.mem_cons, List.not_mem_nil,
      or_false, Waits.SleepyAction.act.injEq] at hb
    rcases hb with rfl | rfl | rfl | rfl | rfl <;> simp [Action.Stays, Action.Known, demo]
  have htail : ((demoRun (demoPublished.map .act) 5).state.producer
      (.pooled .normal 0)).queue.tail = 1 := by
    decide +kernel
  have hpublished : Published (demoRun (demoPublished.map .act) 5).state ⟨.pooled .normal 0, 0⟩ :=
    Nat.lt_of_lt_of_eq Nat.zero_lt_one htail.symm
  obtain ⟨j, -, hdone⟩ := eventually_written demoRun_initial (demoRun_behaviour hfirst trivial
    (fun _ => trivial) fun _ => trivial) (demoTurns_scheduled _) (demoTurns_prompt _) 5 hpublished
  exact ⟨j, hdone⟩

/-- A shutdown returns and leaves no consumer, once no flush and no raw log call begins any more;
gated log calls may go on for ever. A critical section is one access, as under a fair mutex, and a
write to a sink returns. -/
theorem shutdown_returns {n : ℕ} (hstart : (sleeping conf).Initial (σ 0))
    (h : (sleeping conf).Behaviour (·.Acts (·.Known conf)) σ)
    (hlater : (sleeping conf).Behaviour (·.Acts (·.Winding conf)) fun k => σ (n + k))
    (hfair : ∀ t, Scheduled conf σ t) (hprompt : Prompt conf σ) :
    LeadsTo (fun k => (σ (n + k)).state) (Ending t final) (Ended t final) := by
  have hknown := (Waits.behaviour_state h).reachableWhere (known_start hstart) n
  have hfairTo := fun t => ((hfair t).fairTo hstart h hprompt).shift n
  have hconsumer := (hprompt.consumer_fair hstart h).shift n
  exact leadsTo_shutDown hknown (Waits.behaviour_state hlater) hfairTo hconsumer

/-- A process exits. -/
def demoStops : List (Waits.SleepyAction Action (Option ℕ)) :=
  [.act (.call 0 .processExit), .act (.thread 0)]

theorem shutdown_returns_exit : ∃ j, Ended 0 .shutDown (demoRun demoStops (2 + j)).state := by
  have hfirst : ∀ b ∈ demoStops, b.Acts (Action.Winding demo) := by
    rintro b hb a rfl
    simp only [demoStops, List.mem_cons, List.not_mem_nil, or_false,
      Waits.SleepyAction.act.injEq] at hb
    rcases hb with rfl | rfl <;> trivial
  have hbehaviour : (sleeping demo).Behaviour (·.Acts (Action.Winding demo)) (demoRun demoStops) :=
    demoRun_behaviour hfirst trivial (fun _ => trivial) fun _ => trivial
  have hending : Ending 0 .shutDown (demoRun demoStops 2).state := by
    have hpc : (demoRun demoStops 2).state.pc 0 = .awaitFlushers .shutDown := by decide +kernel
    rw [Ending, hpc]
    exact ⟨rfl, rfl⟩
  obtain ⟨j, -, hj⟩ := shutdown_returns demoRun_initial
    (hbehaviour.mono fun _ hacts a ha => (hacts a ha).known) (hbehaviour.shift 2)
    (demoTurns_scheduled _) (demoTurns_prompt _) 0 hending
  exact ⟨j, hj⟩

end Unlog.Handoff
