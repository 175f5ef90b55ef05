import Unlog.Control.Step

/-! What a step can do, one case for each effect on the process. -/

namespace Unlog.Control

section Cases

variable (s : Process) (t : ℕ) (answers : Answers)

/-- The critical sections that begin with `ensure_state_created_locked`. -/
def CallPc.locking : CallPc → Bool
  | .access _ _ => true
  | .perform _ _ (.makeChannel _) | .perform _ _ (.addSink _ _)
  | .perform _ _ (.setGlobalLevel _) | .perform _ _ .start => true
  | _ => false

/-- An exception can leave the operation. -/
def CallPc.throws : CallPc → Bool
  | .access _ _ | .perform _ _ _ => true
  | _ => false

theorem CallPc.throws_of_locking {pc : CallPc} (h : pc.locking = true) : pc.throws = true := by
  cases pc <;> first | rfl | contradiction

/-- What a critical section may do before its own work. -/
inductive Prelude : Process → Prop
  | none : Prelude s
  | hook {i : ℕ} (hpc : (s.pc t).locking = true) (hstate : s.state = some i) :
      Prelude s.registerProcessExitHook
  | create (hpc : (s.pc t).locking = true) (hstate : s.state = none)
      (hlifecycle : s.lifecycle ≠ .shuttingDown ∧ s.lifecycle ≠ .shutDown) :
      Prelude (s.createState answers.anchors).registerProcessExitHook

/-- The moves of a thread that write nothing shared. -/
inductive Move : CallPc → CallPc → Prop
  | perform {config : GlobalConfig} {operation : Operation} {i b : ℕ} (hstate : s.state = some i)
      (hbackend : (s.runtimes i).producerBackend = some b)
      (hconfig : (s.runtimes i).global = config) :
      Move (.access config operation) (.perform config b operation)
  | prewarm {config : GlobalConfig} {b : ℕ} (h : s.lifecycle = .running) :
      Move (.perform config b .prewarmThread) (.prewarmState config b)
  | allowed {i : ℕ} (h : s.lifecycle = .running) : Move (.flushLifecycle i) (.flushRequest i)
  | refuse {i : ℕ} (h : s.lifecycle ≠ .running) : Move (.flushLifecycle i) (.flushRefuse i)
  | answered {i target : ℕ} (h : target ≤ (s.runtimes i).flushCompleted) :
      Move (.flushWait i target) (.flushLeave i)
  | enabled {handle : Handle} {level : LogLevel} {route : RouteState}
      (hroute : (s.runtimes handle.runtime).channels[handle.route]? = some route)
      (h : levelEnabled level route.level = true) : Move (.gate handle level) (.produce handle true)
  | alone {i : ℕ} {final : RuntimeLifecycle} (h : (s.runtimes i).activeFlushers = 0)
      (hstarted : (s.runtimes i).consumerStarted = true) :
      Move (.awaitFlushers i final) (.requestStop i final)
  | unstarted {i : ℕ} {final : RuntimeLifecycle} (h : (s.runtimes i).activeFlushers = 0)
      (hstarted : (s.runtimes i).consumerStarted = false) :
      Move (.awaitFlushers i final) (.resetSinks i final)

/-- A call that ends without having changed anything, and how. -/
inductive Return : CallPc → Result → Prop
  | threw {pc : CallPc} (error : Error) (h : pc.throws = true) : Return pc (.threw error)
  | started {config : GlobalConfig} {b : ℕ} (h : s.lifecycle = .running) :
      Return (.perform config b .start) .done
  | noState {config : GlobalConfig} {b : ℕ} (h : s.state = none) :
      Return (.perform config b .getGlobalLevel) (.level .info)
  | flushAbsent {config : GlobalConfig} {b : ℕ} : Return (.perform config b .flush) .done
  | prewarmIgnored {config : GlobalConfig} {b : ℕ} :
      Return (.perform config b .prewarmThread) .done
  | prewarmAbsent {config : GlobalConfig} {b : ℕ} : Return (.prewarmState config b) .done
  | disabled {handle : Handle} {level : LogLevel} : Return (.gate handle level) .done
  | produced {handle : Handle} {gated : Bool}
      (h : handle.policy.runtimeMode = .singleThreaded →
        (s.backends handle.backend).single handle.policy.hugePages = true) :
      Return (.produce handle gated) .done
  | crashed {handle : Handle} {gated : Bool} (hmode : handle.policy.runtimeMode = .singleThreaded)
      (h : (s.backends handle.backend).single handle.policy.hugePages = false) :
      Return (.produce handle gated) .nullDereference
  | destroying {final : RuntimeLifecycle} (h : s.lifecycle = .shuttingDown) :
      Return (.destroy final) .done

/-- The checks of `start_backend`. -/
structure StartChecked (i b : ℕ) : Prop where
  state : s.state = some i
  lifecycle : s.lifecycle = .configuring
  channels : (s.runtimes i).channels ≠ []
  backend : (s.runtimes i).producerBackend = some b

/-- What `prepare_start` has done even where it throws. -/
def prepareBackend (config : GlobalConfig) (i b : ℕ) : Process :=
  { s.setBackend b ((s.backends b).prepareStart answers).1 with
    acts := ⟨s.state, i, b, config⟩ :: s.acts }

/-- A step of thread `t` after its prelude, by its effect. -/
inductive ThreadEffect : Process → Prop
  | move {pc : CallPc} (h : Move s (s.pc t) pc) : ThreadEffect (s.setPc t pc)
  | return {result : Result} (h : Return s (s.pc t) result) : ThreadEffect (s.finish t result)
  | bind {config : GlobalConfig} {operation : Operation} {i : ℕ}
      (hpc : s.pc t = .access config operation) (hstate : s.state = some i)
      (hbackend : (s.runtimes i).producerBackend = none) :
      ThreadEffect ((s.bindBackend i config).setPc t (.perform config s.backendCount operation))
  | emplace {config : GlobalConfig} {i b : ℕ} {conf : Config} (sink : ℕ)
      (configuredSinks : List ConfiguredSink)
      (hpc : s.pc t = .perform config b (.makeChannel conf)) (hstate : s.state = some i)
      (hlifecycle : s.lifecycle = .configuring)
      (hbackend : (s.runtimes i).producerBackend = some b)
      (hname : (s.runtimes i).channelIds.lookup conf.name = none)
      (hlength : (s.runtimes i).channels.length < invalidChannelId)
      (hsink : configuredSinkForLocked answers s.sinkCount (s.runtimes i).configuredSinks
        (channelRegistrationFor conf) = .ok (sink, configuredSinks)) :
      ThreadEffect (emplaceRoute s t config i b conf sink configuredSinks)
  | pushSink {config : GlobalConfig} {i b : ℕ} {conf : Config} {sink : ℕ}
      (hpc : s.pc t = .perform config b (.addSink conf (some sink))) (hstate : s.state = some i)
      (hlifecycle : s.lifecycle = .configuring)
      (hbackend : (s.runtimes i).producerBackend = some b) :
      ThreadEffect (pushCustomSink s t config i b (sinkEntryFor conf (some sink)))
  | storeGlobal {config : GlobalConfig} {i b : ℕ} {level : LogLevel}
      (hpc : s.pc t = .perform config b (.setGlobalLevel level)) (hstate : s.state = some i)
      (hbackend : (s.runtimes i).producerBackend = some b) :
      ThreadEffect (storeGlobalLevel s t config i b level)
  | queryLevel {config : GlobalConfig} {i b : ℕ}
      (hpc : s.pc t = .perform config b .getGlobalLevel) (hstate : s.state = some i)
      (hbackend : (s.runtimes i).producerBackend = some b) :
      ThreadEffect { s.finish t (.level (s.runtimes i).globalLevel) with
        acts := ⟨s.state, i, b, config⟩ :: s.acts }
  | routeIgnored {handle : Handle} {level : LogLevel} (hpc : s.pc t = .setRouteLevel handle level)
      (hstate : ∀ i, s.state = some i → (s.runtimes i).producerBackend ≠ some handle.backend) :
      ThreadEffect { s.finish t .done with
        settings := .route handle.runtime handle.route level :: s.settings }
  | storeRoute {handle : Handle} {level : LogLevel} {i : ℕ}
      (hpc : s.pc t = .setRouteLevel handle level) (hstate : s.state = some i)
      (hbackend : (s.runtimes i).producerBackend = some handle.backend) :
      ThreadEffect (storeRouteLevel { s.finish t .done with
        settings := .route handle.runtime handle.route level :: s.settings } handle level)
  | startUnprepared {config : GlobalConfig} {i b : ℕ} (hpc : s.pc t = .perform config b .start)
      (checked : StartChecked s i b)
      (hprepared : ((s.backends b).prepareStart answers).2 = false) :
      ThreadEffect ((prepareBackend s answers config i b).finish t (.threw .badAlloc))
  | startThreadless {config : GlobalConfig} {i b : ℕ} (hpc : s.pc t = .perform config b .start)
      (checked : StartChecked s i b)
      (hprepared : ((s.backends b).prepareStart answers).2 = true)
      (hstarted : (s.runtimes i).consumerStarted = false) (hthread : answers.threadCreated = false) :
      ThreadEffect (((prepareBackend s answers config i b).setRuntime i
        { activateChannels (s.runtimes i) with stopRequested := false }).finish t
          (.threw (.systemError (ascii "Resource temporarily unavailable"))))
  | startRepeated {config : GlobalConfig} {i b : ℕ} (hpc : s.pc t = .perform config b .start)
      (checked : StartChecked s i b)
      (hprepared : ((s.backends b).prepareStart answers).2 = true)
      (hstarted : (s.runtimes i).consumerStarted = true) :
      ThreadEffect { ((prepareBackend s answers config i b).setRuntime i
        (activateChannels (s.runtimes i))).finish t .done with lifecycle := .running }
  | started {config : GlobalConfig} {i b : ℕ} (hpc : s.pc t = .perform config b .start)
      (checked : StartChecked s i b)
      (hprepared : ((s.backends b).prepareStart answers).2 = true)
      (hstarted : (s.runtimes i).consumerStarted = false) (hthread : answers.threadCreated = true) :
      ThreadEffect { ((prepareBackend s answers config i b).setRuntime i
        { activateChannels (s.runtimes i) with
          stopRequested := false
          consumer := .draining
          consumerStarted := true }).finish t .done with lifecycle := .running }
  | flushBegin {config : GlobalConfig} {i b : ℕ} (hpc : s.pc t = .perform config b .flush)
      (hstate : s.state = some i) (hbackend : (s.runtimes i).producerBackend = some b) :
      ThreadEffect { s.setPc t (.flushAdmit i) with acts := ⟨s.state, i, b, config⟩ :: s.acts }
  | prewarm {config : GlobalConfig} {i b : ℕ} (hpc : s.pc t = .prewarmState config b)
      (hstate : s.state = some i) (hbackend : (s.runtimes i).producerBackend = some b) :
      ThreadEffect { s.finish t .done with acts := ⟨s.state, i, b, config⟩ :: s.acts }
  | countFlusher {i : ℕ} (hpc : s.pc t = .flushAdmit i) :
      ThreadEffect ((countFlusher s i).setPc t (.flushLifecycle i))
  | uncountFlusher {i : ℕ} (hpc : s.pc t = .flushRefuse i ∨ s.pc t = .flushLeave i) :
      ThreadEffect ((uncountFlusher s i).finish t .done)
  | requestFlush {i : ℕ} (hpc : s.pc t = .flushRequest i) :
      ThreadEffect ((requestFlush s i).setPc t
        (.flushWait i ((s.runtimes i).flushRequested + 1)))
  | destroyNone {final : RuntimeLifecycle} (hpc : s.pc t = .destroy final)
      (hlifecycle : s.lifecycle ≠ .shuttingDown) (hstate : s.state = none) :
      ThreadEffect { s.finish t .done with lifecycle := final }
  | destroy {final : RuntimeLifecycle} {i : ℕ} (hpc : s.pc t = .destroy final)
      (hlifecycle : s.lifecycle ≠ .shuttingDown) (hstate : s.state = some i) :
      ThreadEffect { (deactivateRuntime s i).setPc t (.awaitFlushers i final) with
        lifecycle := .shuttingDown }
  | requestStop {final : RuntimeLifecycle} {i : ℕ} (hpc : s.pc t = .requestStop i final) :
      ThreadEffect ((s.setRuntime i { s.runtimes i with stopRequested := true }).setPc t
        (.join i final))
  | join {final : RuntimeLifecycle} {i : ℕ} (hpc : s.pc t = .join i final)
      (hended : (s.runtimes i).consumer = .ended) :
      ThreadEffect ((s.setRuntime i { s.runtimes i with
        consumerStarted := false
        stopRequested := false }).setPc t (.resetSinks i final))
  | resetSinks {final : RuntimeLifecycle} {i : ℕ} (hpc : s.pc t = .resetSinks i final) :
      ThreadEffect ((resetSinks s i).setPc t (.finishDestroy i final))
  | finishDestroy {final : RuntimeLifecycle} {i : ℕ} (hpc : s.pc t = .finishDestroy i final) :
      ThreadEffect (finishDestroy s t final)

end Cases

/-! ## The steps have no other effects -/

variable {s s' : Process} {t : ℕ} {answers : Answers}

/-- What a thread does in one step. -/
def ThreadReaches (t : ℕ) (answers : Answers) (s s' : Process) : Prop :=
  ∃ m, Prelude s t answers m ∧ ThreadEffect m t answers s'

theorem ThreadEffect.reaches (h : ThreadEffect s t answers s') :
    ThreadReaches t answers s s' :=
  ⟨s, .none, h⟩

theorem Prelude.pc_eq {m : Process} (h : Prelude s t answers m) : m.pc = s.pc := by
  cases h <;> rfl

/-- A critical section throws, or goes on with the runtime it found or made. -/
theorem locked_cases {work : Process → ℕ → Process} (hpc : (s.pc t).locking = true)
    (hwork : ∀ m i, m.pc = s.pc → m.state = some i → ThreadEffect m t answers (work m i)) :
    ThreadReaches t answers s (locked s t answers work) := by
  unfold locked ensureStateCreatedLocked
  split
  case h_1 error heq =>
    exact (ThreadEffect.return (.threw error (CallPc.throws_of_locking hpc))).reaches
  case h_2 m i heq =>
    split at heq
    case isTrue => contradiction
    case isFalse hlifecycle =>
      split at heq
      case h_1 j hstate =>
        obtain ⟨rfl, rfl⟩ := Prod.mk.inj (Except.ok.inj heq)
        exact ⟨_, .hook hpc hstate, hwork _ _ rfl hstate⟩
      case h_2 hstate =>
        obtain ⟨rfl, rfl⟩ := Prod.mk.inj (Except.ok.inj heq)
        exact ⟨_, .create hpc hstate (not_or.mp hlifecycle), hwork _ _ rfl rfl⟩

theorem ThreadEffect.threw {pc : CallPc} (error : Error) (hpc : s.pc t = pc)
    (h : pc.throws = true) : ThreadEffect s t answers (s.finish t (.threw error)) :=
  .return (.threw error (hpc ▸ h))

theorem accessProducerBackend_cases {config : GlobalConfig} {operation : Operation}
    (hpc : s.pc t = .access config operation) :
    ThreadReaches t answers s (accessProducerBackend s t answers config operation) := by
  refine locked_cases (by rw [hpc]; rfl) fun m i hm hstate => ?_
  have hmpc : m.pc t = .access config operation := by rw [hm, hpc]
  split
  case h_1 b hb =>
    split
    case isTrue => exact .threw _ hmpc rfl
    case isFalse hconfig =>
      exact .move (by rw [hmpc]; exact .perform hstate hb (not_not.mp hconfig))
  case h_2 hb => exact .bind hmpc hstate hb

theorem makeChannelRoute_cases {config : GlobalConfig} {b : ℕ} {conf : Config}
    (hpc : s.pc t = .perform config b (.makeChannel conf)) :
    ThreadReaches t answers s (makeChannelRoute s t answers config b conf) := by
  refine locked_cases (by rw [hpc]; rfl) fun m i hm hstate => ?_
  have hmpc : m.pc t = .perform config b (.makeChannel conf) := by rw [hm, hpc]
  split
  case isTrue => exact .threw _ hmpc rfl
  case isFalse hlifecycle =>
    split
    case isTrue => exact .threw _ hmpc rfl
    case isFalse hbackend =>
      simp only [makeChannelRouteLocked]
      split
      case isTrue => exact .threw _ hmpc rfl
      case isFalse hname =>
        split
        case isTrue => exact .threw _ hmpc rfl
        case isFalse hlength =>
          split
          case h_1 => exact .threw _ hmpc rfl
          case h_2 sink configuredSinks hsink =>
            exact .emplace sink configuredSinks hmpc hstate (not_not.mp hlifecycle)
              (not_not.mp hbackend) (Option.not_isSome_iff_eq_none.mp hname)
              (not_le.mp hlength) hsink

theorem addSinkRoute_cases {config : GlobalConfig} {b : ℕ} {conf : Config} {sink : Option ℕ}
    (hpc : s.pc t = .perform config b (.addSink conf sink)) :
    ThreadReaches t answers s
      (addSinkRoute s t answers config b (sinkEntryFor conf sink)) := by
  refine locked_cases (by rw [hpc]; rfl) fun m i hm hstate => ?_
  have hmpc : m.pc t = .perform config b (.addSink conf sink) := by rw [hm, hpc]
  split
  case isTrue => exact .threw _ hmpc rfl
  case isFalse hlifecycle =>
    split
    case isTrue => exact .threw _ hmpc rfl
    case isFalse hbackend =>
      cases sink with
      | none => exact .threw _ hmpc rfl
      | some sink => exact .pushSink hmpc hstate (not_not.mp hlifecycle) (not_not.mp hbackend)

theorem setGlobalLevel_cases {config : GlobalConfig} {b : ℕ} {level : LogLevel}
    (hpc : s.pc t = .perform config b (.setGlobalLevel level)) :
    ThreadReaches t answers s (setGlobalLevel s t answers config b level) := by
  refine locked_cases (by rw [hpc]; rfl) fun m i hm hstate => ?_
  have hmpc : m.pc t = .perform config b (.setGlobalLevel level) := by rw [hm, hpc]
  split
  case isTrue => exact .threw _ hmpc rfl
  case isFalse hbackend => exact .storeGlobal hmpc hstate (not_not.mp hbackend)

theorem startChecked_eq (config : GlobalConfig) (i b : ℕ) :
    startChecked s t answers config i b =
      if !((s.backends b).prepareStart answers).2 then
        (prepareBackend s answers config i b).finish t (.threw .badAlloc)
      else
        let started := ensureConsumerStarted answers (activateChannels (s.runtimes i))
        let s := (prepareBackend s answers config i b).setRuntime i started.1
        if !started.2 then
          s.finish t (.threw (.systemError (ascii "Resource temporarily unavailable")))
        else { s.finish t .done with lifecycle := .running } :=
  rfl

theorem ensureConsumerStarted_eq {runtime : RuntimeState}
    (hstarted : runtime.consumerStarted = false) :
    ensureConsumerStarted answers (activateChannels runtime) =
      if !answers.threadCreated then
        ({ activateChannels runtime with stopRequested := false }, false)
      else
        ({ activateChannels runtime with
          stopRequested := false
          consumer := .draining
          consumerStarted := true }, true) :=
  if_neg (by simp [activateChannels, hstarted])

theorem startChecked_cases {config : GlobalConfig} {i b : ℕ}
    (hpc : s.pc t = .perform config b .start) (checked : StartChecked s i b) :
    ThreadEffect s t answers (startChecked s t answers config i b) := by
  rw [startChecked_eq]
  cases hprepared : ((s.backends b).prepareStart answers).2 with
  | false => exact .startUnprepared hpc checked hprepared
  | true =>
      cases hstarted : (s.runtimes i).consumerStarted with
      | true =>
          have hensure : ensureConsumerStarted answers (activateChannels (s.runtimes i)) =
              (activateChannels (s.runtimes i), true) := if_pos hstarted
          rw [hensure]
          exact .startRepeated hpc checked hprepared hstarted
      | false =>
          rw [ensureConsumerStarted_eq hstarted]
          cases hthread : answers.threadCreated with
          | false => exact .startThreadless hpc checked hprepared hstarted hthread
          | true => exact .started hpc checked hprepared hstarted hthread

theorem startBackend_cases {config : GlobalConfig} {b : ℕ} (hpc : s.pc t = .perform config b .start) :
    ThreadReaches t answers s (startBackend s t answers config b) := by
  refine locked_cases (by rw [hpc]; rfl) fun m i hm hstate => ?_
  have hmpc : m.pc t = .perform config b .start := by rw [hm, hpc]
  split
  case isTrue hrunning => exact .return (by rw [hmpc]; exact .started hrunning)
  case isFalse =>
    split
    case isTrue => exact .threw _ hmpc rfl
    case isFalse hlifecycle =>
      split
      case isTrue => exact .threw _ hmpc rfl
      case isFalse hchannels =>
        split
        case isTrue => exact .threw _ hmpc rfl
        case isFalse hbackend =>
          exact startChecked_cases hmpc
            ⟨hstate, not_not.mp hlifecycle, hchannels, not_not.mp hbackend⟩

/-! The operations that create nothing. -/

theorem getGlobalLevel_cases {config : GlobalConfig} {b : ℕ}
    (hpc : s.pc t = .perform config b .getGlobalLevel) :
    ThreadEffect s t answers (getGlobalLevel s t config b) := by
  unfold getGlobalLevel
  split
  case h_1 hstate => exact .return (by rw [hpc]; exact .noState hstate)
  case h_2 i hstate =>
    split
    case isTrue => exact .threw _ hpc rfl
    case isFalse hbackend => exact .queryLevel hpc hstate (not_not.mp hbackend)

theorem flushBackend_cases {config : GlobalConfig} {b : ℕ} (hpc : s.pc t = .perform config b .flush) :
    ThreadEffect s t answers (flushBackend s t config b) := by
  unfold flushBackend
  split
  case h_1 => exact .return (by rw [hpc]; exact .flushAbsent)
  case h_2 i hstate =>
    split
    case isTrue => exact .return (by rw [hpc]; exact .flushAbsent)
    case isFalse hbackend => exact .flushBegin hpc hstate (not_not.mp hbackend)

theorem prewarmBackend_cases {config : GlobalConfig} {b : ℕ} (hpc : s.pc t = .prewarmState config b) :
    ThreadEffect s t answers (prewarmBackend s t config b) := by
  unfold prewarmBackend
  split
  case h_1 => exact .return (by rw [hpc]; exact .prewarmAbsent)
  case h_2 i hstate =>
    split
    case isTrue => exact .return (by rw [hpc]; exact .prewarmAbsent)
    case isFalse hbackend => exact .prewarm hpc hstate (not_not.mp hbackend)

theorem setRouteLevel_cases {handle : Handle} {level : LogLevel}
    (hpc : s.pc t = .setRouteLevel handle level) :
    ThreadEffect s t answers (setRouteLevel s t handle level) := by
  simp only [setRouteLevel]
  split
  case h_1 hstate =>
    apply ThreadEffect.routeIgnored hpc
    intro i hi
    rw [show s.state = none from hstate] at hi
    contradiction
  case h_2 i hstate =>
    split
    case isTrue hbackend =>
      refine .routeIgnored hpc fun j hj => ?_
      rw [show s.state = some i from hstate] at hj
      obtain rfl := Option.some.inj hj
      exact hbackend
    case isFalse hbackend => exact .storeRoute hpc hstate (not_not.mp hbackend)

theorem produceStep_cases {handle : Handle} {gated : Bool} (hpc : s.pc t = .produce handle gated) :
    ThreadEffect s t answers (produceStep s t handle) := by
  unfold produceStep
  split
  case h_1 hmode => exact .return (by rw [hpc]; exact .produced (by simp [hmode]))
  case h_2 hmode =>
    split
    case isTrue h => exact .return (by rw [hpc]; exact .produced fun _ => h)
    case isFalse h => exact .return (by rw [hpc]; exact .crashed hmode (Bool.not_eq_true _ ▸ h))

theorem destroyRuntime_cases {final : RuntimeLifecycle} (hpc : s.pc t = .destroy final) :
    ThreadEffect s t answers (destroyRuntime s t final) := by
  unfold destroyRuntime
  split
  case isTrue h => exact .return (by rw [hpc]; exact .destroying h)
  case isFalse hlifecycle =>
    split
    case h_1 hstate => exact .destroyNone hpc hlifecycle hstate
    case h_2 i hstate => exact .destroy hpc hlifecycle hstate

theorem performStep_cases {config : GlobalConfig} {b : ℕ} {operation : Operation}
    (hpc : s.pc t = .perform config b operation) :
    ThreadReaches t answers s (performStep s t answers config b operation) := by
  cases operation with
  | makeChannel conf => exact makeChannelRoute_cases hpc
  | addSink conf sink => exact addSinkRoute_cases hpc
  | setGlobalLevel level => exact setGlobalLevel_cases hpc
  | getGlobalLevel => exact (getGlobalLevel_cases hpc).reaches
  | start => exact startBackend_cases hpc
  | flush => exact (flushBackend_cases hpc).reaches
  | prewarmThread =>
      simp only [performStep]
      split
      case isTrue h => exact (ThreadEffect.move (by rw [hpc]; exact .prewarm h)).reaches
      case isFalse => exact (ThreadEffect.return (by rw [hpc]; exact .prewarmIgnored)).reaches

theorem threadStep_cases (h : threadStep s t answers = some s') :
    ThreadReaches t answers s s' := by
  unfold threadStep at h
  split at h
  case h_1 => contradiction
  case h_2 hpc => obtain rfl := Option.some.inj h; exact accessProducerBackend_cases hpc
  case h_3 hpc => obtain rfl := Option.some.inj h; exact performStep_cases hpc
  case h_4 hpc => obtain rfl := Option.some.inj h; exact (prewarmBackend_cases hpc).reaches
  case h_5 hpc => obtain rfl := Option.some.inj h; exact (ThreadEffect.countFlusher hpc).reaches
  case h_6 i hpc =>
    obtain rfl := Option.some.inj h
    refine (ThreadEffect.move ?_).reaches
    rw [hpc]
    split
    case isTrue h => exact .allowed h
    case isFalse h => exact .refuse h
  case h_7 hpc =>
    obtain rfl := Option.some.inj h
    exact (ThreadEffect.uncountFlusher (.inl hpc)).reaches
  case h_8 hpc => obtain rfl := Option.some.inj h; exact (ThreadEffect.requestFlush hpc).reaches
  case h_9 hpc =>
    split at h
    case isTrue => contradiction
    case isFalse hle =>
      obtain rfl := Option.some.inj h
      exact (ThreadEffect.move (by rw [hpc]; exact .answered (not_lt.mp hle))).reaches
  case h_10 hpc =>
    obtain rfl := Option.some.inj h
    exact (ThreadEffect.uncountFlusher (.inr hpc)).reaches
  case h_11 hpc => obtain rfl := Option.some.inj h; exact (setRouteLevel_cases hpc).reaches
  case h_12 hpc =>
    split at h
    case h_1 => contradiction
    case h_2 route hroute =>
      split at h
      case isTrue henabled =>
        obtain rfl := Option.some.inj h
        exact (ThreadEffect.move (by rw [hpc]; exact .enabled hroute henabled)).reaches
      case isFalse =>
        obtain rfl := Option.some.inj h
        exact (ThreadEffect.return (by rw [hpc]; exact .disabled)).reaches
  case h_13 hpc => obtain rfl := Option.some.inj h; exact (produceStep_cases hpc).reaches
  case h_14 hpc => obtain rfl := Option.some.inj h; exact (destroyRuntime_cases hpc).reaches
  case h_15 hpc =>
    split at h
    case isTrue => contradiction
    case isFalse hnone =>
      split at h
      case isTrue hstarted =>
        obtain rfl := Option.some.inj h
        exact (ThreadEffect.move (by rw [hpc]; exact .alone (not_not.mp hnone) hstarted)).reaches
      case isFalse hstarted =>
        obtain rfl := Option.some.inj h
        exact (ThreadEffect.move (by
          rw [hpc]; exact .unstarted (not_not.mp hnone) (Bool.not_eq_true _ ▸ hstarted))).reaches
  case h_16 hpc => obtain rfl := Option.some.inj h; exact (ThreadEffect.requestStop hpc).reaches
  case h_17 hpc =>
    split at h
    case isTrue => contradiction
    case isFalse hended =>
      obtain rfl := Option.some.inj h
      exact (ThreadEffect.join hpc (not_not.mp hended)).reaches
  case h_18 hpc => obtain rfl := Option.some.inj h; exact (ThreadEffect.resetSinks hpc).reaches
  case h_19 hpc => obtain rfl := Option.some.inj h; exact (ThreadEffect.finishDestroy hpc).reaches

/-! ## Program counters -/

/-- Where a thread goes on, whatever else its step does. -/
inductive Next (s : Process) : CallPc → CallPc → Prop
  | move {pc next : CallPc} (h : Move s pc next) : Next s pc next
  | finish {pc : CallPc} : Next s pc .idle
  | bind {config : GlobalConfig} {operation : Operation} :
      Next s (.access config operation) (.perform config s.backendCount operation)
  | flushBegin {config : GlobalConfig} {i b : ℕ} (hstate : s.state = some i) :
      Next s (.perform config b .flush) (.flushAdmit i)
  | countFlusher {i : ℕ} : Next s (.flushAdmit i) (.flushLifecycle i)
  | requestFlush {i target : ℕ} : Next s (.flushRequest i) (.flushWait i target)
  | destroy {final : RuntimeLifecycle} {i : ℕ} (hstate : s.state = some i) :
      Next s (.destroy final) (.awaitFlushers i final)
  | requestStop {final : RuntimeLifecycle} {i : ℕ} : Next s (.requestStop i final) (.join i final)
  | join {final : RuntimeLifecycle} {i : ℕ} : Next s (.join i final) (.resetSinks i final)
  | resetSinks {final : RuntimeLifecycle} {i : ℕ} :
      Next s (.resetSinks i final) (.finishDestroy i final)

theorem ThreadEffect.next (h : ThreadEffect s t answers s') :
    ∃ next, s'.pc = Function.update s.pc t next ∧ Next s (s.pc t) next := by
  cases h with
  | move hmove => exact ⟨_, rfl, .move hmove⟩
  | bind hpc => exact ⟨_, rfl, hpc ▸ .bind⟩
  | flushBegin hpc hstate => exact ⟨_, rfl, hpc ▸ .flushBegin hstate⟩
  | countFlusher hpc => exact ⟨_, rfl, hpc ▸ .countFlusher⟩
  | requestFlush hpc => exact ⟨_, rfl, hpc ▸ .requestFlush⟩
  | destroy hpc _ hstate => exact ⟨_, rfl, hpc ▸ .destroy hstate⟩
  | requestStop hpc => exact ⟨_, rfl, hpc ▸ .requestStop⟩
  | join hpc => exact ⟨_, rfl, hpc ▸ .join⟩
  | resetSinks hpc => exact ⟨_, rfl, hpc ▸ .resetSinks⟩
  | _ => exact ⟨.idle, rfl, .finish⟩

/-- Threads move only their own program counter. -/
theorem ThreadEffect.pc_of_ne (h : ThreadEffect s t answers s') {t' : ℕ} (hne : t' ≠ t) :
    s'.pc t' = s.pc t' := by
  obtain ⟨next, hpc, -⟩ := h.next
  rw [hpc, Function.update_of_ne hne]

theorem ThreadEffect.next_self (h : ThreadEffect s t answers s') : Next s (s.pc t) (s'.pc t) := by
  obtain ⟨next, hpc, hnext⟩ := h.next
  rwa [hpc, Function.update_self]

/-! ## The consumer -/

/-- Where a consumer goes from its phase, and what `flush_completed` is then. -/
inductive ConsumerMove (runtime : RuntimeState) : ConsumerPhase → ConsumerPhase → ℕ → Prop
  | answer (h : runtime.flushRequested ≠ runtime.flushCompleted) :
      ConsumerMove runtime .draining (.answering runtime.flushRequested) runtime.flushCompleted
  | unasked (h : runtime.flushRequested = runtime.flushCompleted) :
      ConsumerMove runtime .draining .readStop runtime.flushCompleted
  | complete {requested : ℕ} : ConsumerMove runtime (.answering requested) .draining requested
  | stop (h : runtime.stopRequested = true) :
      ConsumerMove runtime .readStop .leftLoop runtime.flushCompleted
  | again (h : runtime.stopRequested = false) :
      ConsumerMove runtime .readStop .draining runtime.flushCompleted
  | finish : ConsumerMove runtime .leftLoop .ended runtime.flushCompleted

theorem consumerStep_cases {i : ℕ} (h : consumerStep s i = some s') :
    ∃ phase completed, ConsumerMove (s.runtimes i) (s.runtimes i).consumer phase completed ∧
      s' = s.setRuntime i { s.runtimes i with
        consumer := phase
        flushCompleted := completed } := by
  simp only [consumerStep] at h
  split at h
  case h_1 => contradiction
  case h_2 => contradiction
  case h_3 hphase =>
    obtain rfl := Option.some.inj h
    rw [hphase]
    by_cases hasked : (s.runtimes i).flushRequested = (s.runtimes i).flushCompleted
    · exact ⟨_, _, .unasked hasked, by rw [if_neg (not_not.mpr hasked)]⟩
    · exact ⟨_, _, .answer hasked, by rw [if_pos hasked]⟩
  case h_4 requested hphase =>
    obtain rfl := Option.some.inj h
    rw [hphase]
    exact ⟨_, _, .complete, rfl⟩
  case h_5 hphase =>
    obtain rfl := Option.some.inj h
    rw [hphase]
    by_cases hstop : (s.runtimes i).stopRequested = true
    · exact ⟨_, _, .stop hstop, by rw [if_pos hstop]⟩
    · exact ⟨_, _, .again (by simpa using hstop), by rw [if_neg hstop]⟩
  case h_6 hphase =>
    obtain rfl := Option.some.inj h
    rw [hphase]
    exact ⟨_, _, .finish, rfl⟩

/-! ## Every step -/

/-- A call begins. -/
inductive Entry (s : Process) : CallPc → Prop
  | operate (config : GlobalConfig) (operation : Operation) : Entry s (.access config operation)
  | setLevel {handle : Handle} (level : LogLevel) (h : handle ∈ s.handles) :
      Entry s (.setRouteLevel handle level)
  | log {handle : Handle} (level : LogLevel) (h : handle ∈ s.handles) :
      Entry s (.gate handle level)
  | logUnchecked {handle : Handle} (h : handle ∈ s.handles) : Entry s (.produce handle false)
  | destroy (final : RuntimeLifecycle) (h : final = .shutDown ∨ final = .uninitialized) :
      Entry s (.destroy final)

theorem Call.entry_cases {call : Call} {pc : CallPc} (h : call.entry s = some pc) :
    Entry s pc := by
  cases call with
  | operate config operation =>
      obtain rfl := Option.some.inj h
      exact .operate config operation
  | setLevel handle level =>
      obtain ⟨hmem, rfl⟩ : handle ∈ s.handles ∧ _ = pc := by simpa [Call.entry] using h
      exact .setLevel level hmem
  | log handle level =>
      obtain ⟨hmem, rfl⟩ : handle ∈ s.handles ∧ _ = pc := by simpa [Call.entry] using h
      exact .log level hmem
  | logUnchecked handle level =>
      obtain ⟨hmem, rfl⟩ : handle ∈ s.handles ∧ _ = pc := by simpa [Call.entry] using h
      exact .logUnchecked hmem
  | processExit =>
      obtain ⟨-, rfl⟩ : s.processExitHookRegistered = true ∧ _ = pc := by
        simpa [Call.entry] using h
      exact .destroy .shutDown (.inl rfl)
  | reset =>
      obtain rfl := Option.some.inj h
      exact .destroy .uninitialized (.inr rfl)

/-- The states a run goes through, those between a prelude and the rest of its critical section
included. -/
inductive Visited (ok : Process → ℕ → Answers → Prop) : Process → Prop
  | initial : Visited ok Process.initial
  | call {s : Process} {t : ℕ} {pc : CallPc} :
      Visited ok s → s.pc t = .idle → Entry s pc → Visited ok (s.setPc t pc)
  | prelude {s m : Process} {t : ℕ} {answers : Answers} :
      Visited ok s → Prelude s t answers m → Visited ok m
  | thread {s s' : Process} {t : ℕ} {answers : Answers} :
      Visited ok s → ok s t answers → ThreadEffect s t answers s' → Visited ok s'
  | consumer {s : Process} {i completed : ℕ} {phase : ConsumerPhase} :
      Visited ok s → ConsumerMove (s.runtimes i) (s.runtimes i).consumer phase completed →
      Visited ok (s.setRuntime i { s.runtimes i with
        consumer := phase
        flushCompleted := completed })

theorem visited_of_reachableWhere {ok : Process → Action → Prop}
    {ok' : Process → ℕ → Answers → Prop}
    (hok : ∀ s t answers m, ok s (.thread t answers) → Prelude s t answers m → ok' m t answers)
    (h : process.ReachableWhere ok s) : Visited ok' s := by
  induction h with
  | initial hinit =>
      obtain rfl : _ = Process.initial := hinit
      exact .initial
  | @step s s' a _ ha hstep ih =>
      cases a with
      | call t call =>
          simp only [process, Control.step] at hstep
          split at hstep
          case isFalse => contradiction
          case isTrue hidle =>
            obtain ⟨pc, hpc, rfl⟩ := Option.map_eq_some_iff.mp hstep
            exact .call ih hidle (Call.entry_cases hpc)
      | thread t answers =>
          obtain ⟨m, hprelude, heffect⟩ := threadStep_cases hstep
          exact .thread (.prelude ih hprelude) (hok s t answers m ha hprelude) heffect
      | consumer i =>
          obtain ⟨phase, completed, hmove, rfl⟩ := consumerStep_cases hstep
          exact .consumer ih hmove

theorem visited_of_reachable (h : process.Reachable s) : Visited (fun _ _ _ => True) s :=
  visited_of_reachableWhere (fun _ _ _ _ _ _ => trivial) h

/-- What a call, a prelude, a thread and a consumer keep, a run keeps. -/
theorem run_induct {P : Process → Prop} {ok : Process → ℕ → Answers → Prop} {actions : List Action}
    (hcall : ∀ s t pc, P s → Entry s pc → P (s.setPc t pc))
    (hprelude : ∀ s t answers m, Visited ok s → P s → Prelude s t answers m → P m)
    (hthread : ∀ s t answers s', Visited ok s → P s → ThreadEffect s t answers s' → P s')
    (hconsumer : ∀ s i phase completed, Visited ok s → P s →
      ConsumerMove (s.runtimes i) (s.runtimes i).consumer phase completed →
      P (s.setRuntime i { s.runtimes i with consumer := phase, flushCompleted := completed }))
    (hok : ∀ s t answers, ok s t answers) (h : Visited ok s) (hs : P s)
    (hrun : process.run s actions = some s') : P s' := by
  induction actions generalizing s with
  | nil =>
      obtain rfl : s = s' := by simpa [Library.System.run] using hrun
      exact hs
  | cons a actions ih =>
      obtain ⟨next, hstep, hrest⟩ := Option.bind_eq_some_iff.mp hrun
      suffices hnext : Visited ok next ∧ P next from ih hnext.1 hnext.2 hrest
      cases a with
      | call t call =>
          simp only [process, Control.step] at hstep
          split at hstep
          case isFalse => contradiction
          case isTrue hidle =>
            obtain ⟨pc, hpc, rfl⟩ := Option.map_eq_some_iff.mp hstep
            have hentry := Call.entry_cases hpc
            exact ⟨.call h hidle hentry, hcall s t pc hs hentry⟩
      | thread t answers =>
          obtain ⟨m, hpre, heffect⟩ := threadStep_cases hstep
          have hm : Visited ok m := .prelude h hpre
          exact ⟨.thread hm (hok m t answers) heffect,
            hthread m t answers next hm (hprelude s t answers m h hs hpre) heffect⟩
      | consumer i =>
          obtain ⟨phase, completed, hmove, rfl⟩ := consumerStep_cases hstep
          exact ⟨.consumer h hmove, hconsumer s i phase completed h hs hmove⟩

end Unlog.Control
