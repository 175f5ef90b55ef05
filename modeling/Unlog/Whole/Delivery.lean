import Unlog.Handoff.Liveness
import Unlog.Whole.Lines

/-! # No line is lost

While the runtime runs, a log call that published has its lines at the sinks some day: the program
shows the hand-off its accesses, and what the hand-off comes to it comes to as well. -/

namespace Unlog.Whole

open Library Emit Render
open Handoff (ProducerId RecordId Sealed sleeping)

variable {setup : Setup} {E : Type} {cstr : ℕ → Text} {localtime : ℤ → Tm}
  {x x' : State setup E} {request : LogRequest E} {p : ProducerId} {t n : ℕ}

/-! ## What the hand-off sees -/

section Shown

variable (x : State setup E)

/-- The outcome of `produce`. -/
def outcome (t : ℕ) (storage : Payload setup.global.maxRecordSize) (request : LogRequest E) :
    Handoff.Outcome :=
  match x.shared.state.pc t with
  | .produce channel p =>
    match setup.channels[channel]? with
    | none => .error
    | some stored =>
      (produce setup.sealed ⟨x.shared.state, x.slots⟩ p (channelPolicyFor stored.1) storage
        request).elim .error fun produced => tell produced.2.2.1
  | _ => .error

def shows : Action setup E → Waits.SleepyAction Handoff.Action (Option ℕ)
  | .produce t storage request => .act (.produce t (outcome x t storage request))
  | .other b => b

end Shown

theorem shown_of_step {a : Action setup E} (hstep : step cstr localtime x a = some x') :
    (sleeping setup.sealed).step x.shared (shows x a) = some x'.shared := by
  cases a with
  | other b => exact (other_of_step hstep).2.1
  | produce t storage request =>
      change produceStep x t storage request = some x' at hstep
      unfold produceStep at hstep
      split at hstep
      case h_2 => contradiction
      case h_1 channel p hpc =>
        split at hstep
        case h_1 => contradiction
        case h_2 stored hstored =>
          split at hstep
          case isTrue => contradiction
          case isFalse hroute =>
            obtain ⟨produced, hproduced, hshared⟩ := Option.bind_eq_some_iff.mp hstep
            obtain ⟨shared, hnext, rfl⟩ := Option.map_eq_some_iff.mp hshared
            simp only [shows, outcome, hpc, hstored, hproduced, Option.elim_some]
            exact hnext

theorem shown_isSome {a : Action setup E}
    (h : ((program setup E cstr localtime).step x a).isSome = true) :
    ((sleeping setup.sealed).step x.shared (shows x a)).isSome = true := by
  obtain ⟨x', hstep⟩ := Option.isSome_iff_exists.mp h
  have hstep : step cstr localtime x a = some x' := hstep
  exact Option.isSome_iff_exists.mpr ⟨_, shown_of_step hstep⟩

/-- The program with its slots implements the hand-off. -/
def sharing (setup : Setup) (E : Type) (cstr : ℕ → Text) (localtime : ℤ → Tm) :
    System.Simulation (program setup E cstr localtime) (sleeping setup.sealed) where
  view := State.shared
  label x a := some (shows x a)
  initial := by
    rintro _ ⟨level, rfl⟩
    exact ⟨_, ⟨level, rfl⟩, rfl⟩
  shown x a x' b _ hstep hb := by
    obtain rfl := Option.some.inj hb
    exact shown_of_step hstep
  silent _ _ _ _ _ hnone := by contradiction

/-! ## Fairness -/

/-- A log call names a channel of the runtime, and nobody shuts it down. -/
def Action.Stays : Action setup E → Prop
  | .produce _ _ _ => True
  | .other b => b.Acts (·.Stays setup.sealed)

/-- An awake thread is not put off for ever, inside the callback of `produce` and outside it. -/
structure Scheduled (cstr : ℕ → Text) (localtime : ℤ → Tm) (σ : ℕ → State setup E) (t : ℕ) :
    Prop where
  thread : (program setup E cstr localtime).WeaklyFair σ
    fun a => ∃ b, b.Of (· = .thread t) ∧ a = .other b
  produce : (program setup E cstr localtime).WeaklyFair σ
    fun a => ∃ storage request, a = .produce t storage request

/-- The awake consumer is not put off for ever, and nor is an owed notification or a comparison
before a sleep. -/
structure Prompt (cstr : ℕ → Text) (localtime : ℤ → Tm) (σ : ℕ → State setup E) : Prop where
  consumer : (program setup E cstr localtime).WeaklyFair σ
    fun a => ∃ b, b.Of (· = .consumer) ∧ a = .other b
  rousing : ∀ actor helper, (program setup E cstr localtime).WeaklyFair σ
    fun a => ∃ b, Waits.rouses actor helper b ∧ a = .other b

theorem step_isSome {b : Waits.SleepyAction Handoff.Action (Option ℕ)}
    (hb : ∀ t outcome, b ≠ .act (.produce t outcome))
    (h : ((sleeping setup.sealed).step x.shared b).isSome = true) :
    ((program setup E cstr localtime).step x (.other b)).isSome = true := by
  change (step cstr localtime x (.other b)).isSome = true
  unfold step
  split
  case h_1 heq => contradiction
  case h_2 heq => exact absurd (Action.other.inj heq) (hb _ _)
  case h_3 heq =>
    obtain rfl := Action.other.inj heq
    rwa [Option.isSome_map]

theorem produce_of_produceStep {conf : Sealed} {s s' : Handoff.State} {told : Handoff.Outcome}
    (h : Handoff.step conf s (.produce t told) = some s') :
    ∃ channel p, s.pc t = .produce channel p := by
  simp only [Handoff.step] at h
  split at h
  case h_1 channel p hpc => exact ⟨channel, p, hpc⟩
  case h_2 => contradiction

theorem exists_produce {maxRecordSize : ℕ} (conf : Sealed) (b : Backend maxRecordSize)
    (p : ProducerId) (policy : ChannelPolicy) (storage : Payload maxRecordSize)
    (request : LogRequest E) :
    ∃ produced, produce conf b p policy storage request = some produced := by
  rw [produce]
  split
  case isTrue => exact ⟨_, rfl⟩
  case isFalse =>
    obtain ⟨produced, hproduced, -⟩ := produceRuntimeRecord_produced policy storage request
    exact ⟨_, Option.map_eq_some_iff.mpr ⟨produced, hproduced, rfl⟩⟩

theorem route_of_produceStep {storage : Payload setup.global.maxRecordSize}
    (h : produceStep x t storage request = some x') : ∃ p,
    x.shared.state.pc t = .produce request.route p ∧ request.route < setup.channels.length := by
  unfold produceStep at h
  split at h
  case h_2 => contradiction
  case h_1 channel p hpc =>
    split at h
    case h_1 => contradiction
    case h_2 stored hstored =>
      split at h
      case isTrue => contradiction
      case isFalse hroute =>
        obtain rfl : request.route = channel := not_not.mp hroute
        exact ⟨p, hpc, (List.getElem?_eq_some_iff.mp hstored).1⟩

/-- Inside the callback of `produce` every record of the channel can be written. -/
theorem produce_isSome (cstr : ℕ → Text) (localtime : ℤ → Tm) {channel : ℕ}
    {told : Handoff.Outcome}
    (h : ((sleeping setup.sealed).step x.shared (.act (.produce t told))).isSome = true)
    (hpc : x.shared.state.pc t = .produce channel p) (hroute : request.route = channel)
    (hchannel : channel < setup.channels.length) (storage : Payload setup.global.maxRecordSize) :
    ((program setup E cstr localtime).step x (.produce t storage request)).isSome = true := by
  obtain ⟨hawake, hisSome⟩ := Waits.act_enabled.mp h
  obtain ⟨produced, hproduced⟩ := exists_produce setup.sealed ⟨x.shared.state, x.slots⟩ p
    (channelPolicyFor setup.channels[channel].1) storage request
  have henabled : ((sleeping setup.sealed).step x.shared
      (.act (.produce t (tell produced.2.2.1)))).isSome = true :=
    Waits.act_enabled.mpr ⟨hawake, Handoff.produce_enabled hisSome⟩
  simp only [program, step, produceStep, hpc, List.getElem?_eq_getElem hchannel, hroute, ne_eq,
    not_true_eq_false, if_false, hproduced, Option.bind_some, Option.isSome_map]
  exact henabled

theorem exists_produce_isSome (cstr : ℕ → Text) (localtime : ℤ → Tm) {told : Handoff.Outcome}
    (hreach : (sleeping setup.sealed).Reachable x.shared)
    (h : ((sleeping setup.sealed).step x.shared (.act (.produce t told))).isSome = true) :
    ∃ storage request,
      ((program setup E cstr localtime).step x (.produce t storage request)).isSome = true := by
  obtain ⟨-, hisSome⟩ := Waits.act_enabled.mp h
  obtain ⟨s', hnext⟩ := Option.isSome_iff_exists.mp hisSome
  have hnext : Handoff.step setup.sealed x.shared.state (.produce t told) = some s' := hnext
  obtain ⟨channel, p, hpc⟩ := produce_of_produceStep hnext
  have hrouted := Handoff.routed_of_reachable
    ((Handoff.waiting setup.sealed).simulation.reachable hreach)
  have hchannel : channel < setup.sealed.channels.length :=
    hrouted.logging t channel ((congrArg Handoff.ThreadPc.channel? hpc).trans rfl)
  let request : LogRequest E := ⟨channel, .info, ⟨none, 0⟩, .text [], 0⟩
  refine ⟨⟨List.replicate _ 0, List.length_replicate⟩, request,
    produce_isSome cstr localtime h hpc rfl ?_ _⟩
  simpa [Setup.sealed] using hchannel

section Behaviour

variable {σ : ℕ → State setup E} (hstart : (program setup E cstr localtime).Initial (σ 0))
  (h : (program setup E cstr localtime).Behaviour Action.Stays σ)
include hstart h

theorem behaviour_shared :
    (sleeping setup.sealed).Behaviour (·.Acts (·.Stays setup.sealed)) fun k => (σ k).shared := by
  refine (sharing setup E cstr localtime).behaviour (.initial hstart) h ?_
  intro x a b ha hb
  obtain rfl := Option.some.inj hb
  cases a with
  | produce t storage request =>
      rintro _ ⟨⟩
      trivial
  | other b => exact ha

/-- An access that is not the callback of `produce` is passed on as it is. -/
theorem weaklyFair_other {moves : Waits.SleepyAction Handoff.Action (Option ℕ) → Prop}
    (hother : ∀ b, moves b → ∀ t told, b ≠ .act (.produce t told))
    (hfair : (program setup E cstr localtime).WeaklyFair σ fun a => ∃ b, moves b ∧ a = .other b) :
    (sleeping setup.sealed).WeaklyFair (fun k => (σ k).shared) moves := by
  refine (sharing setup E cstr localtime).weaklyFair (.initial hstart) h ?_ ?_ hfair
  · rintro x _ ⟨b, hb, rfl⟩
    exact ⟨b, hb, rfl⟩
  · intro x b _ hb hisSome
    exact ⟨.other b, ⟨b, hb, rfl⟩, step_isSome (hother b hb) hisSome⟩

theorem Scheduled.shared (hfair : Scheduled cstr localtime σ t) :
    Handoff.Scheduled setup.sealed (fun k => (σ k).shared) t where
  thread := by
    refine weaklyFair_other hstart h ?_ hfair.thread
    rintro _ ⟨_, rfl, rfl⟩ t told
    exact nofun
  produce := by
    refine (sharing setup E cstr localtime).weaklyFair (.initial hstart) h ?_ ?_ hfair.produce
    · rintro x _ ⟨storage, request, rfl⟩
      exact ⟨_, ⟨_, ⟨_, rfl⟩, rfl⟩, rfl⟩
    · rintro x _ hreach ⟨_, ⟨told, rfl⟩, rfl⟩ hisSome
      obtain ⟨storage, request, hready⟩ := exists_produce_isSome cstr localtime
        ((sharing setup E cstr localtime).reachable hreach) hisSome
      exact ⟨_, ⟨storage, request, rfl⟩, hready⟩

theorem Prompt.shared (hprompt : Prompt cstr localtime σ) :
    Handoff.Prompt setup.sealed fun k => (σ k).shared where
  consumer := by
    refine weaklyFair_other hstart h ?_ hprompt.consumer
    rintro _ ⟨_, rfl, rfl⟩ t told
    exact nofun
  rousing actor helper := by
    refine weaklyFair_other hstart h ?_ (hprompt.rousing actor helper)
    intro b hb t told
    cases helper with
    | none =>
        obtain rfl := hb
        exact nofun
    | some u =>
        obtain ⟨picked, rfl⟩ := hb
        exact nofun

end Behaviour

/-! ## The lines come -/

/-- What was logged stays logged. -/
theorem logged_mono {a : Action setup E} (hstep : step cstr localtime x a = some x')
    (p : ProducerId) : x.logged p <+: x'.logged p := by
  cases a with
  | other b => rw [(other_of_step hstep).2.2.2.1]
  | produce t storage request =>
      obtain ⟨hproduces, -⟩ := produces_of_step hstep
      exact hproduces.logged_mono p

/-- While nobody shuts the runtime down, a call that published has its lines at the sinks some day,
whether or not anybody calls `flush`. A critical section is one access, as under a fair mutex, and a
write to a sink returns. -/
theorem eventually_shown {σ : ℕ → State setup E}
    (hstart : (program setup E cstr localtime).Initial (σ 0))
    (h : (program setup E cstr localtime).Behaviour Action.Stays σ)
    (hfair : ∀ t, Scheduled cstr localtime σ t) (hprompt : Prompt cstr localtime σ) :
    LeadsTo σ (fun x => (x.logged p)[n]? = some request) fun x =>
      ∃ earlier later,
        x.emission.written = earlier ++ lines setup cstr localtime request ++ later := by
  have hreach : ∀ k, (program setup E cstr localtime).Reachable (σ k) :=
    fun k => (h.reachableWhere (.initial hstart) k).reachable
  have hshared := (sharing setup E cstr localtime).initial _ hstart
  have hbehaviour := behaviour_shared hstart h
  have hturns := hprompt.shared hstart h
  have hlevel : ∃ level, (σ 0).shared.state = .started setup.sealed level :=
    Handoff.started_state (σ := fun k => (σ k).shared) hshared
  have htaken : LeadsTo σ (fun x => Handoff.Published x.shared.state ⟨p, n⟩)
      fun x => Handoff.Taken x.shared.state ⟨p, n⟩ := by
    intro k hk
    obtain ⟨j, hkj, hj, -⟩ := Handoff.leadsTo_written (σ := fun k => (σ k).shared.state) hlevel
      (Waits.behaviour_state hbehaviour)
      (fun t => ((hfair t).shared hstart h).fairTo hshared hbehaviour hturns)
      (hturns.consumer_fair hshared hbehaviour) k hk
    exact ⟨j, hkj, hj⟩
  have hkeep := h.keep (P := fun x => (x.logged p)[n]? = some request)
    fun x a x' hlogged hstep => by
      obtain ⟨rest, hrest⟩ := logged_mono hstep p
      rw [← hrest, List.getElem?_append_left (List.getElem?_eq_some_iff.mp hlogged).1, hlogged]
  intro k hk
  have hpublished : Handoff.Published (σ k).shared.state ⟨p, n⟩ := by
    have hlength := (stocked_of_reachable (hreach k)).length_logged p
    exact Nat.lt_of_lt_of_eq (List.getElem?_eq_some_iff.mp hk).1 hlength
  obtain ⟨j, hkj, hj, hlogged⟩ := LeadsTo.stable
    (R := fun x => (x.logged p)[n]? = some request) htaken hkeep k ⟨hpublished, hk⟩
  obtain ⟨earlier, later, hwritten⟩ := (rendered_of_reachable (hreach j)).written hj
  refine ⟨j, hkj, earlier, later, ?_⟩
  rw [hwritten, State.lines, hlogged, Option.elim_some]

/-! ### A schedule -/

/-- One call logs, then all have all their turns again and again. -/
def demoSchedule (k : ℕ) : Action demoSetup Unit :=
  demoAct (Handoff.demoTurns (Handoff.demoPublished.map .act) k)

def demoShown : ℕ → State demoSetup Unit :=
  (program demoSetup Unit (fun _ => []) fun _ => ⟨0, 0, 0⟩).trace
    { shared := { state := .started demoSetup.sealed fun _ => .info } } demoSchedule

theorem demoSchedule_recurs (actor : Option ℕ) (turn : ℕ) (hturn : turn < 5) :
    System.Recurs demoSchedule (· = demoAct (Handoff.demoTurn actor turn)) := by
  intro k
  obtain ⟨j, hkj, hj⟩ := Handoff.demoTurns_recurs actor turn hturn k
  exact ⟨j, hkj, congrArg demoAct hj⟩

theorem demoAct_stays {b : Waits.SleepyAction Handoff.Action (Option ℕ)}
    (h : b.Acts (·.Stays demoSetup.sealed)) : (demoAct b).Stays := by
  unfold demoAct
  split
  case h_1 => trivial
  case h_2 => exact h

theorem demoShown_behaviour :
    (program demoSetup Unit (fun _ => []) fun _ => ⟨0, 0, 0⟩).Behaviour Action.Stays demoShown := by
  refine System.trace_behaviour fun k => demoAct_stays ?_
  refine Handoff.demoTurns_acts ?_ trivial (fun _ => trivial) (fun _ => trivial) k
  rintro b hb a rfl
  simp only [Handoff.demoPublished, List.map_cons, List.map_nil, List.mem_cons, List.not_mem_nil,
    or_false, Waits.SleepyAction.act.injEq] at hb
  rcases hb with rfl | rfl | rfl | rfl | rfl <;>
    simp [Handoff.Action.Stays, Handoff.Action.Known, demoSetup, Setup.sealed, Setup.channels,
      Registration.channel?]

theorem demoShown_scheduled (t : ℕ) :
    Scheduled (fun _ => []) (fun _ => ⟨0, 0, 0⟩) demoShown t where
  thread := by
    refine (demoSchedule_recurs (some t) 0 (by decide)).weaklyFair ⟨_, ⟨_, rfl, rfl⟩, rfl⟩ ?_
    rintro x _ ⟨_, ⟨_, rfl, rfl⟩, rfl⟩
    exact id
  produce := by
    refine (demoSchedule_recurs (some t) 1 (by decide)).weaklyFair ⟨_, _, rfl⟩ ?_
    rintro x _ ⟨storage, request, rfl⟩ hisSome
    obtain ⟨x', hstep⟩ := Option.isSome_iff_exists.mp hisSome
    obtain ⟨p, hpc, hroute⟩ := route_of_produceStep hstep
    have hzero : request.route = 0 := Nat.lt_one_iff.mp hroute
    exact produce_isSome _ _ (shown_isSome hisSome) hpc hzero.symm hroute demoPayload

theorem demoShown_prompt : Prompt (fun _ => []) (fun _ => ⟨0, 0, 0⟩) demoShown where
  consumer := by
    refine (demoSchedule_recurs none 0 (by decide)).weaklyFair ⟨_, ⟨_, rfl, rfl⟩, rfl⟩ ?_
    rintro x _ ⟨_, ⟨_, rfl, rfl⟩, rfl⟩
    exact id
  rousing actor helper := by
    cases helper with
    | none =>
        refine (demoSchedule_recurs actor 3 (by decide)).weaklyFair ⟨_, rfl, rfl⟩ ?_
        rintro x _ ⟨_, rfl, rfl⟩
        exact id
    | some u =>
        refine (demoSchedule_recurs u 4 (by decide)).weaklyFair ⟨_, ⟨0, rfl⟩, rfl⟩ ?_
        rintro x _ ⟨_, ⟨picked, rfl⟩, rfl⟩ hisSome
        have hready : ((sleeping demoSetup.sealed).step x.shared (.notify u 0)).isSome = true :=
          Waits.notify_first (shown_isSome hisSome)
        exact step_isSome (by simp [Handoff.demoTurn]) hready

/-- The call of the schedule has its two lines some day. -/
theorem eventually_shown_hello : ∃ j earlier later, (demoShown j).emission.written =
    earlier ++ [⟨some 0, ascii "info hello\n"⟩, ⟨some 1, ascii "> hello\n"⟩] ++ later := by
  have hlogged : ((demoShown 5).logged (.pooled .normal 0))[0]? = some demoHello := by
    decide +kernel
  have hlines : lines demoSetup (fun _ => []) (fun _ => ⟨0, 0, 0⟩) demoHello =
      [⟨some 0, ascii "info hello\n"⟩, ⟨some 1, ascii "> hello\n"⟩] := by
    decide +kernel
  obtain ⟨j, -, earlier, later, hwritten⟩ := eventually_shown ⟨_, rfl⟩ demoShown_behaviour
    demoShown_scheduled demoShown_prompt 5 hlogged
  exact ⟨j, earlier, later, hlines ▸ hwritten⟩

end Unlog.Whole
