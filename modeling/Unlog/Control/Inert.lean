import Unlog.Control.Registry

/-! # Calls where nothing runs

`flush` and `prewarm_thread` go through `access_producer_backend` before they look whether
anything runs. -/

namespace Unlog.Control

open Render RuntimeState

variable {s s' s₂ : Process} {t i j b : ℕ} {answers : Answers} {config : GlobalConfig}
  {ok : Process → ℕ → Answers → Prop} {work : Process → ℕ → Process}

/-! ## Critical sections -/

/-- `ensure_state_created_locked` throws. -/
def Down (s : Process) : Prop := s.lifecycle = .shuttingDown ∨ s.lifecycle = .shutDown

theorem locked_down (h : Down s) :
    locked s t answers work = s.finish t (.threw (.invalidArgument
      (ascii "runtime is shut down; cannot reinitialize"))) := by
  rw [locked, ensureStateCreatedLocked, if_pos (show _ ∨ _ from h)]

theorem locked_some (h : ¬ Down s) (hstate : s.state = some i) :
    locked s t answers work = work s.registerProcessExitHook i := by
  rw [locked, ensureStateCreatedLocked, if_neg (show ¬ (_ ∨ _) from h), hstate]

theorem locked_none (h : ¬ Down s) (hstate : s.state = none) :
    locked s t answers work =
      work (s.createState answers.anchors).registerProcessExitHook s.runtimeCount := by
  rw [locked, ensureStateCreatedLocked, if_neg (show ¬ (_ ∨ _) from h), hstate]

/-! ## Steps do not read history and results -/

/-- The two processes differ in history and results at most. -/
def Same (s s₂ : Process) : Prop :=
  ∃ acts result, s₂ = { s with acts := acts, result := result }

/-- They also agree in how thread `t` ended its call, if it did. -/
def Agree (t : ℕ) (s s₂ : Process) : Prop :=
  ∃ acts result, s₂ = { s with acts := acts, result := result } ∧
    (s.pc t = .idle → result t = s.result t)

theorem Agree.same (h : Agree t s s₂) : Same s s₂ := by
  obtain ⟨acts, result, hnext, -⟩ := h
  exact ⟨acts, result, hnext⟩

theorem result_finish (result : Result) : (s.finish t result).result t = some result :=
  Function.update_self ..

theorem agree_finish (h : Same s s₂) (result : Result) :
    Agree t (s.finish t result) (s₂.finish t result) := by
  obtain ⟨acts, results, rfl⟩ := h
  exact ⟨_, _, rfl, fun _ => (result_finish result).symm ▸ Function.update_self ..⟩

theorem agree_setPc (h : Same s s₂) {pc : CallPc} (hpc : pc ≠ .idle) :
    Agree t (s.setPc t pc) (s₂.setPc t pc) := by
  obtain ⟨acts, results, rfl⟩ := h
  refine ⟨_, _, rfl, fun hidle => absurd ?_ hpc⟩
  rwa [Process.setPc_pc_self] at hidle

theorem agree_locked (h : Same s s₂)
    (hwork : ∀ m m₂ i, Same m m₂ → Agree t (work m i) (work m₂ i)) :
    Agree t (locked s t answers work) (locked s₂ t answers work) := by
  have hdown_iff : Down s₂ ↔ Down s := by
    obtain ⟨_, _, rfl⟩ := h
    exact Iff.rfl
  have hstate_eq : s₂.state = s.state := by
    obtain ⟨_, _, rfl⟩ := h
    rfl
  by_cases hdown : Down s
  · rw [locked_down hdown, locked_down (hdown_iff.mpr hdown)]
    exact agree_finish h _
  cases hstate : s.state with
  | none =>
      rw [locked_none hdown hstate,
        locked_none (fun h => hdown (hdown_iff.mp h)) (hstate_eq.trans hstate)]
      obtain ⟨acts, results, rfl⟩ := h
      exact hwork _ _ _ ⟨_, _, rfl⟩
  | some i =>
      rw [locked_some hdown hstate,
        locked_some (fun h => hdown (hdown_iff.mp h)) (hstate_eq.trans hstate)]
      obtain ⟨acts, results, rfl⟩ := h
      exact hwork _ _ _ ⟨_, _, rfl⟩

theorem agree_accessProducerBackend (h : Same s s₂) (operation : Operation) :
    Agree t (accessProducerBackend s t answers config operation)
      (accessProducerBackend s₂ t answers config operation) := by
  refine agree_locked h fun m m₂ i hm => ?_
  obtain ⟨acts, results, rfl⟩ := hm
  cases hbackend : (m.runtimes i).producerBackend with
  | some b =>
      simp only
      split
      · exact agree_finish ⟨_, _, rfl⟩ _
      · exact agree_setPc ⟨_, _, rfl⟩ (by simp)
  | none =>
      simp only
      exact agree_setPc ⟨_, _, rfl⟩ (by simp)

theorem agree_makeChannelRoute (h : Same s s₂) (conf : Config) :
    Agree t (makeChannelRoute s t answers config b conf)
      (makeChannelRoute s₂ t answers config b conf) := by
  refine agree_locked h fun m m₂ i hm => ?_
  obtain ⟨acts, results, rfl⟩ := hm
  simp only [makeChannelRouteLocked]
  split
  · exact agree_finish ⟨_, _, rfl⟩ _
  split
  · exact agree_finish ⟨_, _, rfl⟩ _
  split
  · exact agree_finish ⟨_, _, rfl⟩ _
  split
  · exact agree_finish ⟨_, _, rfl⟩ _
  split
  · exact agree_finish ⟨_, _, rfl⟩ _
  · exact ⟨_, _, rfl, fun _ => by simp [emplaceRoute, Process.finish]⟩

theorem agree_addSinkRoute (h : Same s s₂) (entry : SinkEntry) :
    Agree t (addSinkRoute s t answers config b entry)
      (addSinkRoute s₂ t answers config b entry) := by
  refine agree_locked h fun m m₂ i hm => ?_
  obtain ⟨acts, results, rfl⟩ := hm
  simp only
  split
  · exact agree_finish ⟨_, _, rfl⟩ _
  split
  · exact agree_finish ⟨_, _, rfl⟩ _
  split
  · exact agree_finish ⟨_, _, rfl⟩ _
  · exact ⟨_, _, rfl, fun _ => by simp [pushCustomSink, Process.finish]⟩

theorem agree_setGlobalLevel (h : Same s s₂) (level : LogLevel) :
    Agree t (setGlobalLevel s t answers config b level)
      (setGlobalLevel s₂ t answers config b level) := by
  refine agree_locked h fun m m₂ i hm => ?_
  obtain ⟨acts, results, rfl⟩ := hm
  simp only
  split
  · exact agree_finish ⟨_, _, rfl⟩ _
  · exact ⟨_, _, rfl, fun _ => by simp [storeGlobalLevel, Process.finish]⟩

theorem agree_startChecked (h : Same s s₂) :
    Agree t (startChecked s t answers config i b) (startChecked s₂ t answers config i b) := by
  obtain ⟨acts, results, rfl⟩ := h
  rw [startChecked_eq, startChecked_eq]
  change Agree t _ (if !((s.backends b).prepareStart answers).2 then _ else _)
  cases ((s.backends b).prepareStart answers).2 with
  | false => exact agree_finish ⟨_, _, rfl⟩ _
  | true =>
      change Agree t (if !(ensureConsumerStarted answers (activateChannels (s.runtimes i))).2 then _
        else _) (if !(ensureConsumerStarted answers (activateChannels (s.runtimes i))).2 then _
        else _)
      cases (ensureConsumerStarted answers (activateChannels (s.runtimes i))).2 with
      | false => exact agree_finish ⟨_, _, rfl⟩ _
      | true => exact ⟨_, _, rfl, fun _ => by simp [Process.finish]⟩

theorem agree_startBackend (h : Same s s₂) :
    Agree t (startBackend s t answers config b) (startBackend s₂ t answers config b) := by
  refine agree_locked h fun m m₂ i hm => ?_
  obtain ⟨acts, results, rfl⟩ := hm
  simp only
  split
  · exact agree_finish ⟨_, _, rfl⟩ _
  split
  · exact agree_finish ⟨_, _, rfl⟩ _
  split
  · exact agree_finish ⟨_, _, rfl⟩ _
  split
  · exact agree_finish ⟨_, _, rfl⟩ _
  exact agree_startChecked ⟨_, _, rfl⟩

theorem agree_getGlobalLevel (h : Same s s₂) :
    Agree t (getGlobalLevel s t config b) (getGlobalLevel s₂ t config b) := by
  obtain ⟨acts, results, rfl⟩ := h
  obtain ⟨_ | i, lifecycle, hook, runtimes, runtimeCount, backends, backendCount, sinkCount, pc,
    result, handles, settings, registrations, old⟩ := s
  · exact agree_finish ⟨_, _, rfl⟩ _
  · simp only [getGlobalLevel]
    split
    · exact agree_finish ⟨_, _, rfl⟩ _
    · exact ⟨_, _, rfl, fun _ => by simp [Process.finish]⟩

theorem agree_flushBackend (h : Same s s₂) :
    Agree t (flushBackend s t config b) (flushBackend s₂ t config b) := by
  obtain ⟨acts, results, rfl⟩ := h
  obtain ⟨_ | i, lifecycle, hook, runtimes, runtimeCount, backends, backendCount, sinkCount, pc,
    result, handles, settings, registrations, old⟩ := s
  · exact agree_finish ⟨_, _, rfl⟩ _
  · simp only [flushBackend]
    split
    · exact agree_finish ⟨_, _, rfl⟩ _
    · exact ⟨_, _, rfl, fun hidle => by simp at hidle⟩

theorem agree_prewarmBackend (h : Same s s₂) :
    Agree t (prewarmBackend s t config b) (prewarmBackend s₂ t config b) := by
  obtain ⟨acts, results, rfl⟩ := h
  obtain ⟨_ | i, lifecycle, hook, runtimes, runtimeCount, backends, backendCount, sinkCount, pc,
    result, handles, settings, registrations, old⟩ := s
  · exact agree_finish ⟨_, _, rfl⟩ _
  · simp only [prewarmBackend]
    split
    · exact agree_finish ⟨_, _, rfl⟩ _
    · exact ⟨_, _, rfl, fun _ => by simp [Process.finish]⟩

theorem agree_performStep (h : Same s s₂) (operation : Operation) :
    Agree t (performStep s t answers config b operation)
      (performStep s₂ t answers config b operation) := by
  cases operation with
  | makeChannel conf => exact agree_makeChannelRoute h conf
  | addSink conf sink => exact agree_addSinkRoute h _
  | setGlobalLevel level => exact agree_setGlobalLevel h level
  | getGlobalLevel => exact agree_getGlobalLevel h
  | start => exact agree_startBackend h
  | flush => exact agree_flushBackend h
  | prewarmThread =>
      obtain ⟨acts, results, rfl⟩ := h
      simp only [performStep]
      split
      · exact agree_setPc ⟨_, _, rfl⟩ (by simp)
      · exact agree_finish ⟨_, _, rfl⟩ _

theorem agree_setRouteLevel (h : Same s s₂) (handle : Handle) (level : LogLevel) :
    Agree t (setRouteLevel s t handle level) (setRouteLevel s₂ t handle level) := by
  obtain ⟨acts, results, rfl⟩ := h
  obtain ⟨_ | i, lifecycle, hook, runtimes, runtimeCount, backends, backendCount, sinkCount, pc,
    result, handles, settings, registrations, old⟩ := s
  · exact ⟨_, _, rfl, fun _ => by simp [setRouteLevel, Process.finish, Process.setPc]⟩
  · change Agree t (if (runtimes i).producerBackend ≠ some handle.backend then _ else _)
      (if (runtimes i).producerBackend ≠ some handle.backend then _ else _)
    split
    · exact ⟨_, _, rfl, fun _ => by simp [Process.finish]⟩
    · refine ⟨_, _, rfl, fun _ => ?_⟩
      change Function.update results t (some .done) t = Function.update result t (some .done) t
      simp

theorem agree_produceStep (h : Same s s₂) (handle : Handle) :
    Agree t (produceStep s t handle) (produceStep s₂ t handle) := by
  obtain ⟨acts, results, rfl⟩ := h
  simp only [produceStep]
  cases handle.policy.runtimeMode with
  | threadsafe => exact agree_finish ⟨_, _, rfl⟩ _
  | singleThreaded => exact agree_finish ⟨_, _, rfl⟩ _

theorem agree_destroyRuntime (h : Same s s₂) (final : RuntimeLifecycle) :
    Agree t (destroyRuntime s t final) (destroyRuntime s₂ t final) := by
  obtain ⟨acts, results, rfl⟩ := h
  obtain ⟨_ | i, lifecycle, hook, runtimes, runtimeCount, backends, backendCount, sinkCount, pc,
    result, handles, settings, registrations, old⟩ := s
  · simp only [destroyRuntime]
    split
    · exact agree_finish ⟨_, _, rfl⟩ _
    · exact ⟨_, _, rfl, fun _ => by simp [Process.finish]⟩
  · simp only [destroyRuntime]
    split
    · exact agree_finish ⟨_, _, rfl⟩ _
    · exact ⟨_, _, rfl, fun hidle => by simp at hidle⟩

/-! ## Two runs -/

/-- Where a step of a thread ends its call, how. -/
def outcome (s' : Process) : Action → Option Result
  | .thread t _ => if s'.pc t = .idle then s'.result t else none
  | _ => none

/-- One step from processes that are the same. -/
def Agreeing (a : Action) : Option Process → Option Process → Prop
  | none, none => True
  | some s', some s₂' => Same s' s₂' ∧ outcome s' a = outcome s₂' a
  | _, _ => False

theorem Agree.agreeing (h : Agree t s s₂) : Agreeing (.thread t answers) (some s) (some s₂) := by
  refine ⟨h.same, ?_⟩
  obtain ⟨acts, results, rfl, hresult⟩ := h
  simp only [outcome]
  split
  case isTrue hidle => exact (hresult hidle).symm
  case isFalse => rfl

theorem agreeing_threadStep (h : Same s s₂) :
    Agreeing (.thread t answers) (threadStep s t answers) (threadStep s₂ t answers) := by
  have hpc_eq : s₂.pc = s.pc := by
    obtain ⟨_, _, rfl⟩ := h
    rfl
  unfold threadStep
  rw [hpc_eq]
  cases hpc : s.pc t with
  | idle => trivial
  | access config operation => exact (agree_accessProducerBackend h operation).agreeing
  | perform config b operation => exact (agree_performStep h operation).agreeing
  | prewarmState config b => exact (agree_prewarmBackend h).agreeing
  | setRouteLevel handle level => exact (agree_setRouteLevel h handle level).agreeing
  | produce handle gated => exact (agree_produceStep h handle).agreeing
  | destroy final => exact (agree_destroyRuntime h final).agreeing
  | flushAdmit i =>
      obtain ⟨_, _, rfl⟩ := h
      exact (agree_setPc ⟨_, _, rfl⟩ (by simp)).agreeing
  | flushLifecycle i =>
      obtain ⟨_, _, rfl⟩ := h
      refine (agree_setPc ⟨_, _, rfl⟩ ?_).agreeing
      split <;> simp
  | flushRefuse i =>
      obtain ⟨_, _, rfl⟩ := h
      exact (agree_finish ⟨_, _, rfl⟩ _).agreeing
  | flushRequest i =>
      obtain ⟨_, _, rfl⟩ := h
      exact (agree_setPc ⟨_, _, rfl⟩ (by simp)).agreeing
  | flushWait i target =>
      obtain ⟨_, _, rfl⟩ := h
      simp only
      split
      · trivial
      · exact (agree_setPc ⟨_, _, rfl⟩ (by simp)).agreeing
  | flushLeave i =>
      obtain ⟨_, _, rfl⟩ := h
      exact (agree_finish ⟨_, _, rfl⟩ _).agreeing
  | gate handle level =>
      obtain ⟨_, _, rfl⟩ := h
      simp only
      cases (s.runtimes handle.runtime).channels[handle.route]? with
      | none => trivial
      | some route =>
          simp only
          split
          · exact (agree_setPc ⟨_, _, rfl⟩ (by simp)).agreeing
          · exact (agree_finish ⟨_, _, rfl⟩ _).agreeing
  | awaitFlushers i final =>
      obtain ⟨_, _, rfl⟩ := h
      simp only
      split
      · trivial
      split
      · exact (agree_setPc ⟨_, _, rfl⟩ (by simp)).agreeing
      · exact (agree_setPc ⟨_, _, rfl⟩ (by simp)).agreeing
  | requestStop i final =>
      obtain ⟨_, _, rfl⟩ := h
      exact (agree_setPc ⟨_, _, rfl⟩ (by simp)).agreeing
  | join i final =>
      obtain ⟨_, _, rfl⟩ := h
      simp only
      split
      · trivial
      · exact (agree_setPc ⟨_, _, rfl⟩ (by simp)).agreeing
  | resetSinks i final =>
      obtain ⟨_, _, rfl⟩ := h
      exact (agree_setPc ⟨_, _, rfl⟩ (by simp)).agreeing
  | finishDestroy i final =>
      obtain ⟨_, _, rfl⟩ := h
      exact Agree.agreeing
        (show Agree t _ _ from ⟨_, _, rfl, fun _ => by simp [finishDestroy, Process.finish]⟩)

theorem agreeing_step (h : Same s s₂) (a : Action) :
    Agreeing a (process.step s a) (process.step s₂ a) := by
  cases a with
  | thread t answers => exact agreeing_threadStep h
  | call t call =>
      obtain ⟨_, _, rfl⟩ := h
      simp only [process, step]
      split
      case isFalse => trivial
      case isTrue =>
        change Agreeing _ ((call.entry s).map _) ((call.entry s).map _)
        cases call.entry s with
        | none => trivial
        | some pc => exact ⟨⟨_, _, rfl⟩, rfl⟩
  | consumer i =>
      obtain ⟨_, _, rfl⟩ := h
      simp only [process, step, consumerStep]
      cases (s.runtimes i).consumer with
      | notStarted | ended => trivial
      | _ => exact ⟨⟨_, _, rfl⟩, rfl⟩

/-- How the calls that end in a run end, action by action. -/
def outcomes (s : Process) : List Action → Option (List (Option Result))
  | [] => some []
  | a :: actions =>
    (process.step s a).bind fun s' => (outcomes s' actions).map (outcome s' a :: ·)

theorem outcomes_eq {actions : List Action} (h : Same s s₂) :
    outcomes s₂ actions = outcomes s actions := by
  induction actions generalizing s s₂ with
  | nil => rfl
  | cons a actions ih =>
      have hstep := agreeing_step h a
      simp only [outcomes]
      cases hs : process.step s a with
      | none =>
          cases hs₂ : process.step s₂ a with
          | none => rfl
          | some => simp [hs, hs₂, Agreeing] at hstep
      | some s' =>
          cases hs₂ : process.step s₂ a with
          | none => simp [hs, hs₂, Agreeing] at hstep
          | some s₂' =>
              rw [hs, hs₂] at hstep
              obtain ⟨hsame, houtcome⟩ := hstep
              simp only [Option.bind_some, ih hsame, houtcome]

/-! ## A call alone -/

/-- The operations that look whether a runtime runs. -/
def Operation.idles : Operation → Bool
  | .flush | .prewarmThread => true
  | _ => false

/-- Thread `t` begins a call, and makes `n` steps. -/
def alone (t : ℕ) (config : GlobalConfig) (operation : Operation) (answers : Answers) (n : ℕ) :
    List Action :=
  .call t (.operate config operation) :: List.replicate n (.thread t answers)

/-- All but what belongs to the threads, and history. -/
def Process.control (s : Process) :=
  (s.state, s.lifecycle, s.processExitHookRegistered, s.runtimes, s.runtimeCount, s.backends,
    s.backendCount, s.sinkCount)

/-- Alone, the call returns normally, and leaves the control and every runtime as they were. -/
def Inert (s : Process) (t : ℕ) (config : GlobalConfig) (operation : Operation) : Prop :=
  ∀ answers, ∃ n s', process.run s (alone t config operation answers n) = some s' ∧
    s'.pc t = .idle ∧ s'.result t = some .done ∧ s'.control = s.control

/-- A runtime is being configured, and it is one of `config`. -/
def ConfiguredFor (s : Process) (config : GlobalConfig) : Prop :=
  s.lifecycle = .configuring ∧ ∃ i b, s.state = some i ∧ Binds s i b config

theorem step_idle (h : s.pc t = .idle) : process.step s (.thread t answers) = none := by
  simp [process, step, threadStep, h]

/-- Where two runs of one call end it, they end in one state. -/
theorem ended_unique {operation : Operation} {n m : ℕ} {s₁ s₂ : Process} (hle : n ≤ m)
    (h₁ : process.run s (alone t config operation answers n) = some s₁) (hidle₁ : s₁.pc t = .idle)
    (h₂ : process.run s (alone t config operation answers m) = some s₂) : s₂ = s₁ := by
  obtain ⟨k, rfl⟩ := Nat.exists_eq_add_of_le hle
  have hsplit : alone t config operation answers (n + k) =
      alone t config operation answers n ++ List.replicate k (.thread t answers) := by
    rw [alone, alone, List.replicate_add, List.cons_append]
  rw [hsplit, Library.System.run_append, h₁, Option.bind_some] at h₂
  cases k with
  | zero => exact (Option.some.inj h₂).symm
  | succ k =>
      rw [List.replicate_succ, Library.System.run, step_idle hidle₁] at h₂
      contradiction

theorem step_operate {operation : Operation} (hidle : s.pc t = .idle) :
    process.step s (.call t (.operate config operation)) =
      some (s.setPc t (.access config operation)) :=
  if_pos hidle

theorem step_access {operation : Operation} (hpc : s.pc t = .access config operation) :
    process.step s (.thread t answers) =
      some (accessProducerBackend s t answers config operation) := by
  simp [process, step, threadStep, hpc]

theorem step_perform {operation : Operation} (hpc : s.pc t = .perform config b operation) :
    process.step s (.thread t answers) = some (performStep s t answers config b operation) := by
  simp [process, step, threadStep, hpc]

theorem run_alone_zero {operation : Operation} (hidle : s.pc t = .idle) :
    process.run s (alone t config operation answers 0) =
      some (s.setPc t (.access config operation)) := by
  rw [alone, Library.System.run, step_operate hidle]
  rfl

theorem run_alone_succ {operation : Operation} {n : ℕ} (hidle : s.pc t = .idle) :
    process.run s (alone t config operation answers (n + 1)) =
      process.run (accessProducerBackend (s.setPc t (.access config operation)) t answers config
        operation) (List.replicate n (.thread t answers)) := by
  rw [alone, List.replicate_succ, Library.System.run, step_operate hidle, Option.bind_some,
    Library.System.run, step_access (Process.setPc_pc_self _), Option.bind_some]

/-! ## Where a runtime is being configured -/

theorem hook_of_visited (h : Visited ok s) (hstate : s.state ≠ none) :
    s.processExitHookRegistered = true := by
  induction h with
  | initial => exact absurd rfl hstate
  | call _ _ _ ih => exact ih hstate
  | prelude _ hprelude ih =>
      cases hprelude with
      | none => exact ih hstate
      | hook | create => rfl
  | consumer _ _ ih => exact ih hstate
  | @thread s s' t answers _ _ heffect ih =>
      have hkeep : s'.processExitHookRegistered = s.processExitHookRegistered := by
        cases heffect <;> rfl
      rw [hkeep]
      refine ih fun hnone => hstate ?_
      cases heffect with
      | finishDestroy => simp [finishDestroy, hnone]
      | _ => exact hnone

theorem same_of_eq (hcontrol : s'.control = s.control) (hpc : s'.pc = s.pc)
    (hhandles : s'.handles = s.handles) (hsettings : s'.settings = s.settings)
    (hregistrations : s'.registrations = s.registrations) : Same s s' := by
  refine ⟨s'.acts, s'.result, ?_⟩
  cases s
  cases s'
  simp_all [Process.control]

theorem accessProducerBackend_bound {operation : Operation} (hdown : ¬ Down s)
    (hstate : s.state = some i) (hbinds : Binds s i b config) :
    accessProducerBackend s t answers config operation =
      s.registerProcessExitHook.setPc t (.perform config b operation) := by
  have hbackend : (s.registerProcessExitHook.runtimes i).producerBackend = some b := hbinds.1
  have hglobal : (s.registerProcessExitHook.runtimes i).global = config := hbinds.2
  rw [accessProducerBackend, locked_some hdown hstate]
  simp only [hbackend, hglobal, ne_eq, not_true_eq_false, if_false]

theorem update_idle {pc : ℕ → CallPc} (h : pc t = .idle) : Function.update pc t .idle = pc := by
  rw [← h, Function.update_eq_self]

/-- A thread that only moves: it writes nothing shared but history. -/
structure Moves (t : ℕ) (s s' : Process) : Prop where
  control : s'.control = s.control
  pc : Function.update s'.pc t .idle = Function.update s.pc t .idle
  handles : s'.handles = s.handles
  settings : s'.settings = s.settings
  registrations : s'.registrations = s.registrations

theorem Moves.trans {m : Process} (h : Moves t s m) (h' : Moves t m s') : Moves t s s' :=
  ⟨h'.control.trans h.control, h'.pc.trans h.pc, h'.handles.trans h.handles,
    h'.settings.trans h.settings, h'.registrations.trans h.registrations⟩

theorem moves_setPc (pc : CallPc) : Moves t s (s.setPc t pc) :=
  ⟨rfl, Function.update_idem .., rfl, rfl, rfl⟩

theorem moves_finish (result : Result) : Moves t s (s.finish t result) :=
  ⟨rfl, Function.update_idem .., rfl, rfl, rfl⟩

theorem Moves.same (h : Moves t s s') (hidle : s.pc t = .idle) (hidle' : s'.pc t = .idle) :
    Same s s' := by
  refine same_of_eq h.control ?_ h.handles h.settings h.registrations
  rw [← update_idle hidle', h.pc, update_idle hidle]

/-- Whoever counts itself and leaves has changed nothing. -/
theorem moves_uncountFlusher {m : Process} (h : Moves t (countFlusher s i) m) :
    Moves t s (uncountFlusher m i) := by
  obtain ⟨hcontrol, hpc, hhandles, hsettings, hregistrations⟩ := h
  simp only [Process.control, Prod.mk.injEq] at hcontrol
  obtain ⟨hstate, hlifecycle, hhook, hruntimes, hcounts⟩ := hcontrol
  have hruntimes' : (uncountFlusher m i).runtimes = s.runtimes := by
    simp only [uncountFlusher, Process.setRuntime, hruntimes, countFlusher]
    simp
  refine ⟨?_, hpc, hhandles, hsettings, hregistrations⟩
  simp only [Process.control, Prod.mk.injEq]
  exact ⟨hstate, hlifecycle, hhook, hruntimes', hcounts⟩

/-- `flush_backend` counts itself, finds that nothing runs, and leaves. -/
theorem run_flush_refused (hpc : s.pc t = .perform config b .flush)
    (hlifecycle : s.lifecycle ≠ .running) (hstate : s.state = some i)
    (hbackend : (s.runtimes i).producerBackend = some b) :
    ∃ s', process.run s (List.replicate 4 (.thread t answers)) = some s' ∧
      s'.pc t = .idle ∧ s'.result t = some .done ∧ Moves t s s' := by
  obtain ⟨begun, hbegin, hbegun, hpc₁⟩ : ∃ m, process.step s (.thread t answers) = some m ∧
      Moves t s m ∧ m.pc t = .flushAdmit i := by
    refine ⟨{ s.setPc t (.flushAdmit i) with acts := ⟨s.state, i, b, config⟩ :: s.acts }, ?_,
      ⟨rfl, Function.update_idem .., rfl, rfl, rfl⟩, Process.setPc_pc_self _⟩
    rw [step_perform hpc, performStep, flushBackend, hstate]
    simp only [hbackend, ne_eq, not_true_eq_false, if_false]
  have hcount : process.step begun (.thread t answers) =
      some ((countFlusher begun i).setPc t (.flushLifecycle i)) := by
    simp [process, step, threadStep, hpc₁]
  have hrefuse : process.step ((countFlusher begun i).setPc t (.flushLifecycle i))
      (.thread t answers) = some (((countFlusher begun i).setPc t (.flushLifecycle i)).setPc t
        (.flushRefuse i)) := by
    have hsame : begun.lifecycle = s.lifecycle := congrArg (fun control => control.2.1) hbegun.control
    have hnot : ((countFlusher begun i).setPc t (.flushLifecycle i)).lifecycle ≠ .running :=
      hsame ▸ hlifecycle
    simp [process, step, threadStep, hnot]
  have hmoves : Moves t begun (uncountFlusher (((countFlusher begun i).setPc t
      (.flushLifecycle i)).setPc t (.flushRefuse i)) i) :=
    moves_uncountFlusher ((moves_setPc _).trans (moves_setPc _))
  refine ⟨(uncountFlusher (((countFlusher begun i).setPc t (.flushLifecycle i)).setPc t
    (.flushRefuse i)) i).finish t .done, ?_, Process.finish_pc_self _, result_finish _,
    (hbegun.trans hmoves).trans (moves_finish _)⟩
  have hleave : process.step (((countFlusher begun i).setPc t (.flushLifecycle i)).setPc t
      (.flushRefuse i)) (.thread t answers) = some ((uncountFlusher (((countFlusher begun
        i).setPc t (.flushLifecycle i)).setPc t (.flushRefuse i)) i).finish t .done) := by
    simp [process, step, threadStep]
  simp only [List.replicate_succ, List.replicate_zero, Library.System.run, hbegin, hcount,
    hrefuse, hleave, Option.bind_some]

/-- The whole call of `flush`, and of `prewarm_thread`, on a runtime that is being configured. -/
theorem alone_configuredFor {operation : Operation} (h : process.Reachable s)
    (hoperation : operation.idles = true) (hidle : s.pc t = .idle) (hfor : ConfiguredFor s config)
    (answers : Answers) :
    ∃ n s', process.run s (alone t config operation answers n) = some s' ∧ s'.pc t = .idle ∧
      s'.result t = some .done ∧ s'.control = s.control ∧ Same s s' := by
  obtain ⟨hlifecycle, i, b, hstate, hbinds⟩ := hfor
  have hhook : s.processExitHookRegistered = true :=
    hook_of_visited (visited_of_reachable h) (by rw [hstate]; simp)
  have hdown : ¬ Down (s.setPc t (.access config operation)) := by
    change ¬ (s.lifecycle = _ ∨ s.lifecycle = _)
    rw [hlifecycle]
    simp
  have haccess : accessProducerBackend (s.setPc t (.access config operation)) t answers config
      operation = (s.setPc t (.access config operation)).registerProcessExitHook.setPc t
        (.perform config b operation) :=
    accessProducerBackend_bound hdown hstate hbinds
  -- what the call finds after `access_producer_backend`
  obtain ⟨passed, hpassed⟩ : ∃ m, m = (s.setPc t (.access config
    operation)).registerProcessExitHook.setPc t (.perform config b operation) := ⟨_, rfl⟩
  rw [← hpassed] at haccess
  have hpc : passed.pc t = .perform config b operation := hpassed ▸ Process.setPc_pc_self _
  have hmoves : Moves t s passed := by
    have hhooked : Moves t (s.setPc t (.access config operation))
        (s.setPc t (.access config operation)).registerProcessExitHook := by
      refine ⟨?_, rfl, rfl, rfl, rfl⟩
      exact congrArg (fun hook => (s.state, s.lifecycle, hook, s.runtimes, s.runtimeCount,
        s.backends, s.backendCount, s.sinkCount)) hhook.symm
    rw [hpassed]
    exact ((moves_setPc _).trans hhooked).trans (moves_setPc _)
  have hrunning : passed.lifecycle ≠ .running := by
    rw [hpassed]
    change s.lifecycle ≠ .running
    rw [hlifecycle]
    simp
  cases operation with
  | flush =>
      have hstate' : passed.state = some i := hpassed ▸ hstate
      have hbackend' : (passed.runtimes i).producerBackend = some b := hpassed ▸ hbinds.1
      obtain ⟨s', hrun, hended, hresult, hmoves'⟩ : ∃ s',
          process.run passed (List.replicate 4 (.thread t answers)) = some s' ∧
            s'.pc t = .idle ∧ s'.result t = some .done ∧ Moves t passed s' :=
        run_flush_refused hpc hrunning hstate' hbackend'
      have hall := hmoves.trans hmoves'
      refine ⟨5, s', ?_, hended, hresult, hall.control, hall.same hidle hended⟩
      rw [run_alone_succ hidle, haccess]
      exact hrun
  | prewarmThread =>
      have hperform : process.step passed (.thread t answers) = some (passed.finish t .done) := by
        rw [step_perform hpc, performStep, if_neg hrunning]
      have hall := hmoves.trans (moves_finish .done)
      refine ⟨2, passed.finish t .done, ?_, Process.finish_pc_self _, result_finish _,
        hall.control, hall.same hidle (Process.finish_pc_self _)⟩
      rw [run_alone_succ hidle, haccess, List.replicate_one, Library.System.run, hperform]
      rfl
  | _ => contradiction

/-! ## Elsewhere -/

/-- What was made is never unmade. -/
theorem counts_le_of_run {actions : List Action} (hrun : process.run s actions = some s') :
    s.runtimeCount ≤ s'.runtimeCount ∧ s.backendCount ≤ s'.backendCount := by
  induction actions generalizing s with
  | nil =>
      obtain rfl := Option.some.inj hrun
      exact ⟨le_rfl, le_rfl⟩
  | cons a actions ih =>
      obtain ⟨next, hstep, hrest⟩ := Option.bind_eq_some_iff.mp hrun
      obtain ⟨hruntimes, hbackends⟩ := ih hrest
      suffices hnext : s.runtimeCount ≤ next.runtimeCount ∧ s.backendCount ≤ next.backendCount from
        ⟨hnext.1.trans hruntimes, hnext.2.trans hbackends⟩
      cases a with
      | call t call =>
          simp only [process, step] at hstep
          split at hstep
          case isFalse => contradiction
          case isTrue =>
            obtain ⟨pc, -, rfl⟩ := Option.map_eq_some_iff.mp hstep
            exact ⟨le_rfl, le_rfl⟩
      | consumer i =>
          obtain ⟨phase, completed, -, rfl⟩ := consumerStep_cases hstep
          exact ⟨le_rfl, le_rfl⟩
      | thread t answers =>
          obtain ⟨m, hprelude, heffect⟩ := threadStep_cases hstep
          have hm : s.runtimeCount ≤ m.runtimeCount ∧ s.backendCount ≤ m.backendCount := by
            cases hprelude with
            | none | hook => exact ⟨le_rfl, le_rfl⟩
            | create => exact ⟨Nat.le_succ _, le_rfl⟩
          exact ⟨hm.1.trans heffect.grows.runtimeCount_le,
            hm.2.trans heffect.grows.backendCount_le⟩

theorem configuredFor_of_inert {operation : Operation} (h : process.Reachable s)
    (hidle : s.pc t = .idle) (hrunning : s.lifecycle ≠ .running)
    (hinert : Inert s t config operation) : ConfiguredFor s config := by
  obtain ⟨n, s', hrun, hended, hresult, hcontrol⟩ := hinert {}
  have hcounts : s'.runtimeCount = s.runtimeCount ∧ s'.backendCount = s.backendCount := by
    simp only [Process.control, Prod.mk.injEq] at hcontrol
    exact ⟨hcontrol.2.2.2.2.1, hcontrol.2.2.2.2.2.2.1⟩
  cases n with
  | zero =>
      rw [run_alone_zero hidle] at hrun
      obtain rfl := Option.some.inj hrun
      simp at hended
  | succ n =>
      rw [run_alone_succ hidle] at hrun
      -- the call does not end in `access_producer_backend`
      have hthrew : ∀ {m : Process} {error : Error}, accessProducerBackend
          (s.setPc t (.access config operation)) t {} config operation =
            m.finish t (.threw error) → False := by
        intro m error heq
        rw [heq] at hrun
        cases n with
        | zero =>
            obtain rfl := Option.some.inj hrun
            rw [result_finish] at hresult
            simp at hresult
        | succ n =>
            rw [List.replicate_succ, Library.System.run,
              step_idle (Process.finish_pc_self _)] at hrun
            contradiction
      by_cases hdown : Down (s.setPc t (.access config operation))
      · exact absurd (locked_down hdown) fun heq => hthrew heq
      have hs := lifecycleSound_of_visited (visited_of_reachable h)
      cases hstate : s.state with
      | none =>
          have hgrows : (accessProducerBackend (s.setPc t (.access config operation)) t {} config
              operation).runtimeCount = s.runtimeCount + 1 := by
            rw [accessProducerBackend, locked_none hdown hstate]
            split
            · split <;> rfl
            · rfl
          have hle := (counts_le_of_run hrun).1
          omega
      | some i =>
          cases hbackend : (s.runtimes i).producerBackend with
          | none =>
              have hgrows : (accessProducerBackend (s.setPc t (.access config operation)) t {} config
                  operation).backendCount = s.backendCount + 1 := by
                have hnone : ((s.setPc t (.access config
                    operation)).registerProcessExitHook.runtimes i).producerBackend = none := hbackend
                rw [accessProducerBackend, locked_some hdown hstate]
                simp only [hnone]
                rfl
              have hle := (counts_le_of_run hrun).2
              omega
          | some b =>
              have hsome : ((s.setPc t (.access config
                  operation)).registerProcessExitHook.runtimes i).producerBackend = some b := hbackend
              by_cases hglobal : (s.runtimes i).global = config
              · refine ⟨?_, i, b, hstate, hbackend, hglobal⟩
                cases hlifecycle : s.lifecycle with
                | uninitialized =>
                    have hnone := hs.uninitialized hlifecycle
                    rw [hstate] at hnone
                    contradiction
                | configuring => rfl
                | running => exact absurd hlifecycle hrunning
                | shuttingDown => exact absurd (.inl hlifecycle) hdown
                | shutDown => exact absurd (.inr hlifecycle) hdown
              · have hmismatch : accessProducerBackend (s.setPc t (.access config operation)) t {}
                    config operation = (s.setPc t (.access config
                      operation)).registerProcessExitHook.finish t (.threw (.invalidArgument (ascii
                      "process already uses a different compile-time global configuration"))) := by
                  rw [accessProducerBackend, locked_some hdown hstate]
                  simp only [hsome]
                  exact if_pos hglobal
                exact (hthrew hmismatch).elim

/-! ## Calls in between -/

/-- A run of `actions` from `s`, with calls of `flush` and `prewarm_thread` made in between where
nothing runs and `ok` holds; the actions have these outcomes in it. -/
inductive Padded (ok : Process → GlobalConfig → Prop) :
    Process → List Action → List (Option Result) → Prop
  | nil {s : Process} : Padded ok s [] []
  | step {s s' : Process} {a : Action} {actions : List Action} {results : List (Option Result)}
      (hstep : process.step s a = some s') (h : Padded ok s' actions results) :
      Padded ok s (a :: actions) (outcome s' a :: results)
  | insert {s s' : Process} {t n : ℕ} {config : GlobalConfig} {operation : Operation}
      {answers : Answers} {actions : List Action} {results : List (Option Result)}
      (hoperation : operation.idles = true) (hidle : s.pc t = .idle)
      (hlifecycle : s.lifecycle ≠ .running) (hok : ok s config)
      (hrun : process.run s (alone t config operation answers n) = some s')
      (hended : s'.pc t = .idle) (h : Padded ok s' actions results) : Padded ok s actions results

theorem outcomes_of_padded {actions : List Action} {results : List (Option Result)}
    (h : process.Reachable s) (hpadded : Padded ConfiguredFor s actions results) :
    outcomes s actions = some results := by
  induction hpadded with
  | nil => rfl
  | step hstep _ ih => rw [outcomes, hstep, Option.bind_some, ih (h.step hstep), Option.map_some]
  | @insert s s' t n config operation answers actions results hoperation hidle _ hok hrun hended _
      ih =>
      obtain ⟨m, s₁, hrun₁, hended₁, -, -, hsame⟩ :=
        alone_configuredFor h hoperation hidle hok answers
      have hunique : s' = s₁ := by
        rcases le_total n m with hle | hle
        · exact (ended_unique hle hrun hended hrun₁).symm
        · exact ended_unique hle hrun₁ hended₁ hrun
      rw [← outcomes_eq (hunique ▸ hsame), ih (h.run hrun)]

/-- The calls are no-ops exactly where the runtime that is being configured is one of their
configuration, and then they are seen by no later call. -/
theorem inertCalls_iff_configuredFor (h : process.Reachable s) :
    (∀ t config operation, operation.idles = true → s.pc t = .idle → s.lifecycle ≠ .running →
      (Inert s t config operation ↔ ConfiguredFor s config)) ∧
    ∀ actions results, Padded ConfiguredFor s actions results →
      outcomes s actions = some results := by
  refine ⟨fun t config operation hoperation hidle hlifecycle => ?_, fun _ _ => outcomes_of_padded h⟩
  constructor
  · exact configuredFor_of_inert h hidle hlifecycle
  · intro hfor answers
    obtain ⟨n, s', hrun, hended, hresult, hcontrol, -⟩ :=
      alone_configuredFor h hoperation hidle hfor answers
    exact ⟨n, s', hrun, hended, hresult, hcontrol⟩

/-- A flush after the first `make_channel` of its configuration. -/
theorem inertCalls_configuring :
    ∃ s, process.run Process.initial
        [.call 1 (.operate {} (.makeChannel {})), .thread 1 {}, .thread 1 {}] = some s ∧
      Inert s 2 {} .flush := by
  have hrun : (process.run Process.initial
      [.call 1 (.operate {} (.makeChannel {})), .thread 1 {}, .thread 1 {}]).map (fun s =>
        (s.lifecycle, s.state, (s.runtimes 0).identity, s.pc 2)) =
      some (.configuring, some 0, (some 0, {}), .idle) := by
    decide +kernel
  obtain ⟨s, hs, hfacts⟩ := Option.map_eq_some_iff.mp hrun
  simp only [Prod.mk.injEq, identity] at hfacts
  obtain ⟨hlifecycle, hstate, hidentity, hidle⟩ := hfacts
  have hinitial : process.Reachable Process.initial := .initial rfl
  refine ⟨s, hs, ?_⟩
  refine ((inertCalls_iff_configuredFor (hinitial.run hs)).1 2 {} .flush rfl hidle ?_).mpr ?_
  · rw [hlifecycle]
    simp
  · exact ⟨hlifecycle, 0, 0, hstate, hidentity⟩

/-- Thread 2 registers the first channel of another configuration. -/
def demoOther : List Action :=
  [.call 2 (.operate { maxProducers := 2 } (.makeChannel {})), .thread 2 {}]

/-- Before its first use of the library, a process that flushes one configuration has bound
itself to it: the first channel of another one is refused, and was not without the flush. -/
theorem not_inertCalls_initial :
    process.Reachable Process.initial ∧ ¬ Inert Process.initial 1 {} .flush ∧
    outcomes Process.initial demoOther = some [none, none] ∧
    (process.run Process.initial (demoOther ++ [.thread 2 {}])).map (fun s => s.result 2) =
      some (some (.channel ⟨{ maxProducers := 2 }, channelPolicyFor {}, 0, 0, 0⟩)) ∧
    Padded (fun _ _ => True) Process.initial demoOther [none, some (.threw (.invalidArgument
      (ascii "process already uses a different compile-time global configuration")))] := by
  have hinitial : process.Reachable Process.initial := .initial rfl
  refine ⟨hinitial, fun hinert => ?_, by decide +kernel, by decide +kernel, ?_⟩
  · have hfor := configuredFor_of_inert hinitial rfl (by simp [Process.initial]) hinert
    have hlifecycle := hfor.1
    simp [Process.initial] at hlifecycle
  · have hflush : (process.run Process.initial (alone 1 {} .flush {} 5)).map (fun s => s.pc 1) =
        some .idle := by
      decide +kernel
    have hall : (process.run Process.initial (alone 1 {} .flush {} 5 ++ demoOther)).map (fun s =>
        outcome s (.thread 2 {})) = some (some (.threw (.invalidArgument
          (ascii "process already uses a different compile-time global configuration")))) := by
      decide +kernel
    obtain ⟨s', hs', hended⟩ := Option.map_eq_some_iff.mp hflush
    obtain ⟨s₂, hs₂, hthrew⟩ := Option.map_eq_some_iff.mp hall
    rw [Library.System.run_append, hs', Option.bind_some] at hs₂
    obtain ⟨s₁, hcall, hrest⟩ := Option.bind_eq_some_iff.mp hs₂
    obtain ⟨s₂', hthread, hlast⟩ := Option.bind_eq_some_iff.mp hrest
    obtain rfl := Option.some.inj hlast
    refine .insert rfl rfl (by simp [Process.initial]) trivial hs' hended ?_
    rw [← hthrew]
    exact .step hcall (.step hthread .nil)

end Unlog.Control
