import Unlog.Control.Gate

/-! # Failed starts

`start_backend` activates the routes before it creates the consumer thread, which may throw. -/

namespace Unlog.Control

open RuntimeState

variable {s s' : Process} {t i b : ℕ} {answers : Answers} {config : GlobalConfig} {error : Error}

/-- The lifecycle is what it was, and so is the level of every route. -/
def Unchanged (s s' : Process) : Prop :=
  s'.lifecycle = s.lifecycle ∧ ∀ i < s.runtimeCount,
    (s'.runtimes i).channels.map RouteState.level = (s.runtimes i).channels.map RouteState.level

/-- A route that is not off has a consumer, or had one. -/
def OnlyStarted (s : Process) : Prop :=
  ∀ i, ∀ route ∈ (s.runtimes i).channels, route.level ≠ .off →
    (s.runtimes i).consumer ≠ .notStarted

/-- A start finds a runtime, or a process that is shut down; and where the thread cannot be
created, every route already has its configured level. -/
def Harmless (s : Process) : Action → Prop
  | .thread t answers => ∀ config b, s.pc t = .perform config b .start →
    (s.state = none → s.lifecycle = .shuttingDown ∨ s.lifecycle = .shutDown) ∧
    ∀ i, StartChecked s i b → ((s.backends b).prepareStart answers).2 = true →
      answers.threadCreated = false →
      ∀ route ∈ (s.runtimes i).channels, route.level = route.configuredLevel
  | _ => True

/-! ## One failed start -/

theorem harmless_of_unchecked (hpc : s.pc t = .perform config b .start)
    (hstate : s.state = none → s.lifecycle = .shuttingDown ∨ s.lifecycle = .shutDown)
    (hchecked : ∀ i, StartChecked s i b → ((s.backends b).prepareStart answers).2 = false) :
    Harmless s (.thread t answers) := by
  intro config' b' hpc'
  obtain ⟨rfl, rfl, -⟩ : config = config' ∧ b = b' ∧ True := by simpa [hpc] using hpc'
  refine ⟨hstate, fun i checked hprepared => ?_⟩
  rw [hchecked i checked] at hprepared
  contradiction

/-- A level is unchanged by `activate` where it is the configured one. -/
theorem activate_level_iff (channels : List RouteState) :
    (channels.map RouteState.activate).map RouteState.level = channels.map RouteState.level ↔
      ∀ route ∈ channels, route.level = route.configuredLevel := by
  rw [List.map_map, List.map_inj_left]
  exact forall₂_congr fun route _ => eq_comm

theorem startBackend_down (hdown : s.lifecycle = .shuttingDown ∨ s.lifecycle = .shutDown) :
    startBackend s t answers config b = s.finish t (.threw (.invalidArgument
      (ascii "runtime is shut down; cannot reinitialize"))) := by
  simp only [startBackend, locked, ensureStateCreatedLocked, if_pos hdown]

/-- `ensure_state_created_locked` makes a runtime, which has no channels yet. -/
theorem startBackend_none (hdown : ¬(s.lifecycle = .shuttingDown ∨ s.lifecycle = .shutDown))
    (hstate : s.state = none) : (startBackend s t answers config b).lifecycle = .configuring := by
  have hchannels : ((s.createState answers.anchors).registerProcessExitHook.runtimes
      s.runtimeCount).channels = [] :=
    congrArg channels (Process.createState_runtimes_self _)
  simp only [startBackend, locked, ensureStateCreatedLocked, if_neg hdown, hstate]
  rw [if_neg (by simp [Process.createState, Process.registerProcessExitHook]),
    if_neg (by simp [Process.createState, Process.registerProcessExitHook]), if_pos hchannels]
  rfl

/-- A start on a runtime ends as a call, or passes all checks. -/
theorem startBackend_some (t : ℕ) (answers : Answers) (config : GlobalConfig) (b : ℕ)
    (hdown : ¬(s.lifecycle = .shuttingDown ∨ s.lifecycle = .shutDown)) (hstate : s.state = some i) :
    (∃ result, startBackend s t answers config b = s.registerProcessExitHook.finish t result ∧
      ¬ StartChecked s i b) ∨
    startBackend s t answers config b = startChecked s.registerProcessExitHook t answers config i b ∧
      StartChecked s i b := by
  simp only [startBackend, locked, ensureStateCreatedLocked, if_neg hdown, hstate]
  split
  case isTrue hrunning =>
    refine .inl ⟨_, rfl, fun checked => ?_⟩
    exact absurd (hrunning.symm.trans checked.lifecycle) (by simp)
  case isFalse =>
    split
    case isTrue hlifecycle => exact .inl ⟨_, rfl, fun checked => hlifecycle checked.lifecycle⟩
    case isFalse hlifecycle =>
      split
      case isTrue hchannels => exact .inl ⟨_, rfl, fun checked => checked.channels hchannels⟩
      case isFalse hchannels =>
        split
        case isTrue hbackend => exact .inl ⟨_, rfl, fun checked => hbackend checked.backend⟩
        case isFalse hbackend =>
          exact .inr ⟨rfl, hstate, not_not.mp hlifecycle, hchannels, not_not.mp hbackend⟩

theorem unchanged_iff_harmless (h : process.Reachable s)
    (hpc : s.pc t = .perform config b .start)
    (hstep : process.step s (.thread t answers) = some s')
    (hthrew : s'.result t = some (.threw error)) :
    Unchanged s s' ↔ Harmless s (.thread t answers) := by
  have hs := lifecycleSound_of_visited (visited_of_reachable h)
  have hnext : s' = startBackend s t answers config b := by
    simpa [process, step, threadStep, hpc, performStep, eq_comm] using hstep
  by_cases hdown : s.lifecycle = .shuttingDown ∨ s.lifecycle = .shutDown
  · rw [hnext, startBackend_down hdown]
    refine iff_of_true ⟨rfl, fun _ _ => rfl⟩ (harmless_of_unchecked hpc (fun _ => hdown) ?_)
    intro i checked
    rw [checked.lifecycle] at hdown
    simp at hdown
  cases hstate : s.state with
  | none =>
      refine iff_of_false (fun hsame => ?_) fun harmless => hdown ((harmless config b hpc).1 hstate)
      have hconfiguring := hsame.1.symm.trans (hnext ▸ startBackend_none hdown hstate)
      obtain ⟨i, hi, -⟩ := hs.configuring hconfiguring
      exact absurd (hi.symm.trans hstate) (by simp)
  | some i =>
      have hsome : s.state = none → s.lifecycle = .shuttingDown ∨ s.lifecycle = .shutDown :=
        fun hnone => absurd (hnone.symm.trans hstate) (by simp)
      have honly : ∀ j, StartChecked s j b → j = i := fun j checked =>
        Option.some.inj (checked.state.symm.trans hstate)
      rcases startBackend_some t answers config b hdown hstate with
        ⟨result, heq, hunchecked⟩ | ⟨heq, checked⟩
      · rw [hnext, heq]
        refine iff_of_true ⟨rfl, fun _ _ => rfl⟩ (harmless_of_unchecked hpc hsome ?_)
        intro j checked
        exact absurd (honly j checked ▸ checked) hunchecked
      · rw [hnext, heq] at hthrew ⊢
        have hstarted : (s.registerProcessExitHook.runtimes i).consumerStarted = false :=
          (hs.dormant checked).not_started
        rw [startChecked_eq, ensureConsumerStarted_eq hstarted] at hthrew ⊢
        cases hprepared : ((s.backends b).prepareStart answers).2 with
        | false =>
            rw [show ((s.registerProcessExitHook.backends b).prepareStart answers).2 = false from
              hprepared]
            refine iff_of_true ⟨rfl, fun _ _ => rfl⟩ (harmless_of_unchecked hpc hsome ?_)
            exact fun _ _ => hprepared
        | true =>
            rw [show ((s.registerProcessExitHook.backends b).prepareStart answers).2 = true from
              hprepared] at hthrew ⊢
            cases hthread : answers.threadCreated with
            | true =>
                rw [hthread] at hthrew
                have hdone := hthrew.symm.trans (Function.update_self ..)
                simp at hdone
            | false =>
                have hlevels : (((prepareBackend s answers config i b).setRuntime i
                    { activateChannels (s.runtimes i) with stopRequested := false }).runtimes
                      i).channels.map RouteState.level =
                    ((s.runtimes i).channels.map RouteState.activate).map RouteState.level :=
                  congrArg (fun runtime => runtime.channels.map RouteState.level)
                    (Process.setRuntime_runtimes_self _)
                constructor
                · intro hsame config' b' hpc'
                  obtain ⟨rfl, rfl⟩ : config = config' ∧ b = b' := by simpa [hpc] using hpc'
                  refine ⟨hsome, fun j hj _ _ => ?_⟩
                  obtain rfl := honly j hj
                  exact (activate_level_iff _).mp (hlevels.symm.trans
                    (hsame.2 j (hs.born j hstate)))
                · intro harmless
                  have hequal := (harmless config b hpc).2 i checked hprepared hthread
                  refine ⟨rfl, fun j _ => ?_⟩
                  by_cases hj : j = i
                  · subst hj
                    exact hlevels.trans ((activate_level_iff _).mpr hequal)
                  · exact congrArg (fun runtime => runtime.channels.map RouteState.level)
                      (Process.setRuntime_runtimes_of_ne _ hj)

/-! ## Runs -/

theorem careful_of_harmless (h : process.ReachableWhere Harmless s) : Visited Careful s := by
  refine visited_of_reachableWhere (fun s t answers m harmless hprelude => ?_) h
  intro config i b hpc checked hprepared hthread levels hmem
  cases hprelude with
  | none | hook =>
      have checked' : StartChecked s i b :=
        ⟨checked.state, checked.lifecycle, checked.channels, checked.backend⟩
      obtain ⟨route, hroute, rfl⟩ := List.mem_map.mp hmem
      exact ((harmless config b hpc).2 i checked' hprepared hthread route hroute).symm
  | create =>
      obtain rfl := Option.some.inj checked.state
      refine absurd ?_ checked.channels
      exact congrArg channels (Process.createState_runtimes_self _)

theorem onlyStarted_of_harmless (h : process.ReachableWhere Harmless s) : OnlyStarted s := by
  have hvisited := careful_of_harmless h
  intro i route hroute hlevel hnot
  have hcurrent : s.lifecycle = .running ∧ s.state = some i := by
    by_contra hcurrent
    refine hlevel ((levelSound_of_visited hvisited).silent i (fun hl hstate => ?_) route.levels
      (List.mem_map_of_mem hroute))
    exact hcurrent ⟨hl, hstate⟩
  obtain ⟨j, hj, hserving⟩ := (lifecycleSound_of_visited hvisited).running hcurrent.1
  obtain rfl : i = j := Option.some.inj (hcurrent.2.symm.trans hj)
  have hloop := hserving.1
  rw [hnot] at hloop
  contradiction

/-- A failed start changes nothing exactly where it is harmless, and a run of harmless starts
opens no gate without a consumer. -/
theorem failedStart_iff_harmless (h : process.Reachable s) :
    (∀ t answers s' config b error, s.pc t = .perform config b .start →
      process.step s (.thread t answers) = some s' → s'.result t = some (.threw error) →
      (Unchanged s s' ↔ Harmless s (.thread t answers))) ∧
    (process.ReachableWhere Harmless s → OnlyStarted s) :=
  ⟨fun _ _ _ _ _ _ hpc hstep hthrew => unchanged_iff_harmless h hpc hstep hthrew,
    onlyStarted_of_harmless⟩

/-- Thread 1 registers a channel, and begins a start. -/
def demoAttempt : List Action :=
  [.call 1 (.operate {} (.makeChannel {})), .thread 1 {}, .thread 1 {},
    .call 1 (.operate {} .start), .thread 1 {}]

/-- A start that throws where memory for the producer cannot be had is harmless. -/
theorem unchanged_unprepared :
    ∃ s s' error, process.run Process.initial demoAttempt = some s ∧
      process.step s (.thread 1 { normalAllocated := false }) = some s' ∧
      s'.result 1 = some (.threw error) ∧ Unchanged s s' := by
  have hrun : (process.run Process.initial demoAttempt).map (fun s =>
      (s.pc 1, s.state, s.backends 0)) =
        some (.perform {} 0 .start, some 0,
          { waker := some 0, singleNormalNeeded := true }) := by
    decide +kernel
  have hrun' : (process.run Process.initial
      (demoAttempt ++ [.thread 1 { normalAllocated := false }])).map (fun s => s.result 1) =
      some (some (.threw .badAlloc)) := by
    decide +kernel
  obtain ⟨s, hs, hfacts⟩ := Option.map_eq_some_iff.mp hrun
  obtain ⟨s', hs', hresult⟩ := Option.map_eq_some_iff.mp hrun'
  simp only [Prod.mk.injEq] at hfacts
  obtain ⟨hpc, hstate, hbackend⟩ := hfacts
  have hstep : process.step s (.thread 1 { normalAllocated := false }) = some s' := by
    rw [Library.System.run_append, hs, Option.bind_some] at hs'
    simpa [Library.System.run] using hs'
  have hinitial : process.Reachable Process.initial := .initial rfl
  refine ⟨s, s', _, hs, hstep, hresult, ?_⟩
  refine ((failedStart_iff_harmless (hinitial.run hs)).1 1 _ s' {} 0 _ hpc hstep hresult).mpr ?_
  refine harmless_of_unchecked hpc (fun hnone => ?_) fun i _ => ?_
  · rw [hstate] at hnone
    contradiction
  · rw [hbackend]
    rfl

/-- The start throws where the thread cannot be created, and the channel is open. -/
theorem not_unchanged_threadless :
    ∃ s s' error, process.run Process.initial demoAttempt = some s ∧
      s.pc 1 = .perform {} 0 .start ∧
      process.step s (.thread 1 { threadCreated := false }) = some s' ∧
      s'.result 1 = some (.threw error) ∧ s'.lifecycle = .configuring ∧
      ¬ Unchanged s s' ∧ ¬ OnlyStarted s' := by
  have hrun : (process.run Process.initial demoAttempt).map (fun s =>
      (s.pc 1, s.runtimeCount, (s.runtimes 0).channels.map RouteState.level)) =
        some (.perform {} 0 .start, 1, [.off]) := by
    decide +kernel
  have hrun' : (process.run Process.initial
      (demoAttempt ++ [.thread 1 { threadCreated := false }])).map (fun s =>
        (s.result 1, s.lifecycle, (s.runtimes 0).channels.map RouteState.level,
          (s.runtimes 0).consumer)) =
      some (some (.threw (.systemError (ascii "Resource temporarily unavailable"))), .configuring,
        [.info], .notStarted) := by
    decide +kernel
  obtain ⟨s, hs, hfacts⟩ := Option.map_eq_some_iff.mp hrun
  obtain ⟨s', hs', hfacts'⟩ := Option.map_eq_some_iff.mp hrun'
  simp only [Prod.mk.injEq] at hfacts hfacts'
  obtain ⟨hpc, hcount, hlevels⟩ := hfacts
  obtain ⟨hresult, hlifecycle, hlevels', hconsumer⟩ := hfacts'
  have hstep : process.step s (.thread 1 { threadCreated := false }) = some s' := by
    rw [Library.System.run_append, hs, Option.bind_some] at hs'
    simpa [Library.System.run] using hs'
  refine ⟨s, s', _, hs, hpc, hstep, hresult, hlifecycle, fun hsame => ?_, fun honly => ?_⟩
  · have := hsame.2 0 (by rw [hcount]; exact Nat.zero_lt_one)
    rw [hlevels, hlevels'] at this
    simp at this
  · obtain ⟨route, hroute, hlevel⟩ : ∃ route ∈ (s'.runtimes 0).channels, route.level = .info := by
      have hmem : LogLevel.info ∈ (s'.runtimes 0).channels.map RouteState.level := by
        simp [hlevels']
      simpa using hmem
    exact honly 0 route hroute (by simp [hlevel]) hconsumer

end Unlog.Control
