import Unlog.Control.Gate

/-! # The two ways to log

`log_handle` tests the level before it calls `channel::log`; a direct call of `channel::log`
does not. The process is watched together with the log calls that reach `log_message`. -/

namespace Unlog.Control

open RuntimeState ProducerBackend

/-! ## Watching log calls -/

/-- `channel::enabled`. -/
def Handle.enabled (s : Process) (handle : Handle) (level : LogLevel) : Bool :=
  match (s.runtimes handle.runtime).channels[handle.route]? with
  | none => false
  | some route => levelEnabled level route.level

/-- A log call; `enabled` is what `channel::enabled` says when `log_handle` asks it, or when
`channel::log` is called. -/
structure LogCall where
  handle : Handle
  level : LogLevel
  enabled : Bool
  deriving DecidableEq, Repr

/-- The process, the latest log call of each thread, and for each record published the call
that published it, the latest first. -/
structure Watched where
  process : Process
  calls : ℕ → Option LogCall
  published : List (Option LogCall)

def Watched.initial : Watched := ⟨Process.initial, fun _ => none, []⟩

/-- The log call of a step that asks `channel::enabled` or enters `channel::log`. -/
def Action.logs? (s : Process) : Action → Option (ℕ × LogCall)
  | .call t (.logUnchecked handle level) => some (t, ⟨handle, level, handle.enabled s level⟩)
  | .thread t _ =>
    match s.pc t with
    | .gate handle level => some (t, ⟨handle, level, handle.enabled s level⟩)
    | _ => none
  | _ => none

/-- The thread whose step publishes a record. -/
def Action.publishes? (s : Process) : Action → Option ℕ
  | .thread t _ =>
    match s.pc t with
    | .produce handle _ =>
      if handle.policy.runtimeMode = .singleThreaded ∧
        (s.backends handle.backend).single handle.policy.hugePages = false then none else some t
    | _ => none
  | _ => none

def watch (w : Watched) (a : Action) : Option Watched :=
  (process.step w.process a).map fun s =>
    { process := s
      calls :=
        match a.logs? w.process with
        | some (t, call) => Function.update w.calls t (some call)
        | none => w.calls
      published :=
        match a.publishes? w.process with
        | some t => w.calls t :: w.published
        | none => w.published }

def watched : Library.System Watched Action where
  Initial w := w = Watched.initial
  step := watch

/-- What callers rely on: records are published by enabled calls only, and no call finds its
producer missing. -/
structure PublicContract (w : Watched) : Prop where
  published : ∀ entry ∈ w.published, ∃ call, entry = some call ∧ call.enabled = true
  sound : ∀ t, w.process.result t ≠ some .nullDereference

/-- A direct call of `channel::log` finds its channel enabled for its level. -/
def Action.Enabled (s : Process) : Action → Prop
  | .call _ (.logUnchecked handle level) => handle.enabled s level = true
  | _ => True

instance (s : Process) : DecidablePred (Action.Enabled s)
  | .call _ (.logUnchecked handle level) =>
    inferInstanceAs (Decidable (handle.enabled s level = true))
  | .call _ (.operate _ _) | .call _ (.setLevel _ _) | .call _ (.log _ _) | .call _ .processExit
  | .call _ .reset => .isTrue trivial
  | .thread _ _ => .isTrue trivial
  | .consumer _ => .isTrue trivial

/-! ## Steps -/

variable {s s' : Process} {w w' : Watched} {t : ℕ} {answers : Answers} {handle : Handle}
  {level : LogLevel}

theorem watch_eq {a : Action} (h : watched.step w a = some w') :
    process.step w.process a = some w'.process ∧
      w'.calls = (match a.logs? w.process with
        | some (t, call) => Function.update w.calls t (some call)
        | none => w.calls) ∧
      w'.published = (match a.publishes? w.process with
        | some t => w.calls t :: w.published
        | none => w.published) := by
  obtain ⟨s, hs, rfl⟩ := Option.map_eq_some_iff.mp h
  exact ⟨hs, rfl, rfl⟩

theorem reachable_of_watched {ok : Watched → Action → Prop} (h : watched.ReachableWhere ok w) :
    process.Reachable w.process := by
  induction h with
  | initial hinit =>
      obtain rfl : _ = Watched.initial := hinit
      exact .initial rfl
  | step _ _ hstep ih => exact ih.step (watch_eq hstep).1

theorem Handle.enabled_iff : handle.enabled s level = true ↔
    ∃ route, (s.runtimes handle.runtime).channels[handle.route]? = some route ∧
      levelEnabled level route.level = true := by
  unfold Handle.enabled
  cases (s.runtimes handle.runtime).channels[handle.route]? with
  | none => simp
  | some route => simp

/-- An enabled single-threaded channel has its producer, in every reachable state. -/
theorem ProducerSound.single_of_enabled (hs : ProducerSound s) (hmem : handle ∈ s.handles)
    (hmode : handle.policy.runtimeMode = .singleThreaded)
    (henabled : handle.enabled s level = true) :
    (s.backends handle.backend).single handle.policy.hugePages = true := by
  obtain ⟨route, hroute, hlevel⟩ := Handle.enabled_iff.mp henabled
  refine hs.enabled handle hmem hmode route.levels ?_ ?_
  · rw [RuntimeState.levels, List.getElem?_map, hroute]
    rfl
  · intro hoff
    rw [show route.level = .off from hoff, levelEnabled_off] at hlevel
    contradiction

theorem Prelude.eq_of_not_locking {m : Process} (h : Prelude s t answers m)
    (hpc : (s.pc t).locking = false) : m = s := by
  cases h with
  | none => rfl
  | hook hlocking | create hlocking =>
      rw [hpc] at hlocking
      contradiction

/-- A null pointer is dereferenced only where a producer is missing. -/
theorem ThreadEffect.result_null (h : ThreadEffect s t answers s') {t' : ℕ}
    (hresult : s'.result t' = some .nullDereference) :
    s.result t' = some .nullDereference ∨
      ∃ handle gated, s.pc t = .produce handle gated ∧
        handle.policy.runtimeMode = .singleThreaded ∧
        (s.backends handle.backend).single handle.policy.hugePages = false := by
  have hother : ∀ {result : Result}, result ≠ .nullDereference →
      Function.update s.result t (some result) t' = some .nullDereference →
      s.result t' = some .nullDereference := by
    intro result hne hupdate
    by_cases ht : t' = t
    · rw [ht, Function.update_self] at hupdate
      exact absurd (Option.some.inj hupdate) hne
    · rwa [Function.update_of_ne ht] at hupdate
  cases h with
  | @«return» result hreturn =>
      by_cases hnull : result = .nullDereference
      · subst hnull
        generalize hpc : s.pc t = pc at hreturn
        cases hreturn with
        | crashed hmode hmissing => exact .inr ⟨_, _, rfl, hmode, hmissing⟩
      · exact .inl (hother hnull hresult)
  | emplace | pushSink | storeGlobal | queryLevel | routeIgnored | storeRoute | startUnprepared
  | startThreadless | startRepeated | started | prewarm | uncountFlusher | destroyNone
  | finishDestroy => exact .inl (hother (by simp) hresult)
  | _ => exact .inl hresult

/-! ## The invariant -/

/-- A call on its way to a producer was enabled and finds it. -/
structure WatchedSound (w : Watched) : Prop extends PublicContract w where
  calls : ∀ t handle gated, w.process.pc t = .produce handle gated →
    ∃ level, w.calls t = some ⟨handle, level, true⟩
  ready : ∀ t handle gated, w.process.pc t = .produce handle gated →
    handle.policy.runtimeMode = .singleThreaded →
    (w.process.backends handle.backend).single handle.policy.hugePages = true

theorem watchedSound_initial : WatchedSound Watched.initial where
  published entry hmem := by contradiction
  sound t := by simp [Watched.initial, Process.initial]
  calls t handle gated hpc := by contradiction
  ready t handle gated hpc := by contradiction

/-- A call begins. -/
theorem WatchedSound.call {call : Call} (hs : WatchedSound w)
    (h : process.Reachable w.process) (henabled : (Action.call t call).Enabled w.process)
    (hstep : watched.step w (.call t call) = some w') : WatchedSound w' := by
  obtain ⟨hprocess, hcalls, hpublished⟩ := watch_eq hstep
  simp only [process, Control.step] at hprocess
  split at hprocess
  case isFalse => contradiction
  case isTrue hidle =>
    obtain ⟨pc, hpc, hnext⟩ := Option.map_eq_some_iff.mp hprocess
    rw [← hnext] at hprocess
    -- only a direct call goes to a producer at once
    have hself : ∀ handle gated, pc = .produce handle gated → ∃ level,
        call = .logUnchecked handle level ∧ handle ∈ w.process.handles := by
      rintro handle gated rfl
      cases call with
      | logUnchecked other level =>
          obtain ⟨hmem, hsame, -⟩ : other ∈ w.process.handles ∧ other = handle ∧ _ := by
            simpa [Call.entry] using hpc
          exact ⟨level, by rw [hsame], hsame ▸ hmem⟩
      | _ => simp [Call.entry] at hpc
    have hothers : ∀ t', t' ≠ t → w'.calls t' = w.calls t' := by
      intro t' ht
      rw [hcalls]
      cases call with
      | logUnchecked => exact Function.update_of_ne ht ..
      | _ => rfl
    refine ⟨⟨?_, ?_⟩, ?_, ?_⟩
    · rw [hpublished]
      exact hs.published
    · rw [← hnext]
      exact hs.sound
    · intro t' handle gated hproduce
      rw [← hnext] at hproduce
      by_cases ht : t' = t
      · subst ht
        rw [Process.setPc_pc_self] at hproduce
        obtain ⟨level, rfl, -⟩ := hself handle gated hproduce
        refine ⟨level, ?_⟩
        rw [hcalls]
        simp only [Action.logs?, Function.update_self]
        rw [show handle.enabled w.process level = true from henabled]
      · rw [Process.setPc_pc_of_ne _ ht] at hproduce
        rw [hothers t' ht]
        exact hs.calls t' handle gated hproduce
    · intro t' handle gated hproduce hmode
      rw [← hnext] at hproduce ⊢
      by_cases ht : t' = t
      · subst ht
        rw [Process.setPc_pc_self] at hproduce
        obtain ⟨level, rfl, hmem⟩ := hself handle gated hproduce
        exact (producerSound_of_visited (visited_of_reachable h)).single_of_enabled hmem hmode
          henabled
      · rw [Process.setPc_pc_of_ne _ ht] at hproduce
        exact hs.ready t' handle gated hproduce hmode

/-- A thread goes on. -/
theorem WatchedSound.thread (hs : WatchedSound w) (h : process.Reachable w.process)
    (hstep : watched.step w (.thread t answers) = some w') : WatchedSound w' := by
  obtain ⟨hprocess, hcalls, hpublished⟩ := watch_eq hstep
  obtain ⟨m, hprelude, heffect⟩ := threadStep_cases hprocess
  have hvisited := visited_of_reachable h
  have hbinding := bindingSound_of_visited hvisited
  have hsound := producerSound_of_visited hvisited
  have hpc := hprelude.pc_eq
  have hbackends : m.backends = w.process.backends := by cases hprelude <;> rfl
  have hresults : m.result = w.process.result := by cases hprelude <;> rfl
  have hcount : m.backendCount = w.process.backendCount := by cases hprelude <;> rfl
  -- a producer that is there stays there
  have hsingle : ∀ handle ∈ w.process.handles, ∀ hugePages,
      (w.process.backends handle.backend).single hugePages = true →
      (w'.process.backends handle.backend).single hugePages = true := by
    intro handle hmem hugePages hsingle
    have hborn := (hbinding.bound _ _ (hbinding.handles handle hmem).binds.1).2.1
    exact heffect.single (hcount ▸ hborn) (hbackends ▸ hsingle)
  refine ⟨⟨?_, ?_⟩, ?_, ?_⟩
  · intro entry hmem
    rw [hpublished] at hmem
    split at hmem
    case h_1 t' ht =>
      rcases List.mem_cons.mp hmem with rfl | hmem
      · simp only [Action.publishes?] at ht
        split at ht
        case h_1 handle gated hproduce =>
          obtain ⟨level, hcall⟩ := hs.calls t handle gated hproduce
          split at ht
          case isTrue => contradiction
          case isFalse =>
            obtain rfl := Option.some.inj ht
            exact ⟨_, hcall, rfl⟩
        case h_2 => contradiction
      · exact hs.published entry hmem
    case h_2 => exact hs.published entry hmem
  · intro t' hnull
    rcases heffect.result_null hnull with hold | ⟨handle, gated, hproduce, hmode, hmissing⟩
    · rw [hresults] at hold
      exact hs.sound t' hold
    · rw [hpc] at hproduce
      rw [hbackends, hs.ready t handle gated hproduce hmode] at hmissing
      contradiction
  · intro t' handle gated hproduce
    by_cases ht : t' = t
    · subst ht
      obtain ⟨level, route, hgate, hroute, henabled⟩ := heffect.passed hproduce
      rw [hpc] at hgate
      have hsame := hprelude.eq_of_not_locking (by rw [hgate]; rfl)
      subst hsame
      refine ⟨level, ?_⟩
      rw [hcalls]
      simp only [Action.logs?, hgate, Function.update_self]
      rw [Handle.enabled_iff.mpr ⟨route, hroute, henabled⟩]
    · rw [heffect.pc_of_ne ht, hpc] at hproduce
      have hother : w'.calls t' = w.calls t' := by
        rw [hcalls]
        simp only [Action.logs?]
        cases w.process.pc t with
        | gate => exact Function.update_of_ne ht ..
        | _ => rfl
      rw [hother]
      exact hs.calls t' handle gated hproduce
  · intro t' handle gated hproduce hmode
    by_cases ht : t' = t
    · subst ht
      obtain ⟨level, route, hgate, hroute, henabled⟩ := heffect.passed hproduce
      rw [hpc] at hgate
      have hsame := hprelude.eq_of_not_locking (by rw [hgate]; rfl)
      subst hsame
      have hmem := hbinding.held t' handle (by rw [hgate]; rfl)
      exact hsingle handle hmem _ (hsound.single_of_enabled hmem hmode
        (Handle.enabled_iff.mpr ⟨route, hroute, henabled⟩))
    · rw [heffect.pc_of_ne ht, hpc] at hproduce
      have hmem := hbinding.held t' handle (by rw [hproduce]; rfl)
      exact hsingle handle hmem _ (hs.ready t' handle gated hproduce hmode)

/-- The consumer of runtime `i` goes on. -/
theorem WatchedSound.consumer {i : ℕ} (hs : WatchedSound w)
    (hstep : watched.step w (.consumer i) = some w') : WatchedSound w' := by
  obtain ⟨hprocess, hcalls, hpublished⟩ := watch_eq hstep
  obtain ⟨phase, completed, -, hnext⟩ := consumerStep_cases hprocess
  refine ⟨⟨?_, ?_⟩, ?_, ?_⟩
  · rw [hpublished]
    exact hs.published
  · rw [hnext]
    exact hs.sound
  · rw [hnext, hcalls]
    exact hs.calls
  · rw [hnext]
    exact hs.ready

theorem watchedSound_of_enabled
    (h : watched.ReachableWhere (fun w a => a.Enabled w.process) w) : WatchedSound w := by
  induction h with
  | initial hinit =>
      obtain rfl : _ = Watched.initial := hinit
      exact watchedSound_initial
  | @step w w' a hw henabled hstep ih =>
      have hprocess := reachable_of_watched hw
      cases a with
      | call t call => exact ih.call hprocess henabled hstep
      | thread t answers => exact ih.thread hprocess hstep
      | consumer i => exact ih.consumer hstep

/-- As long as direct calls find their channel enabled, every way to log is gated and sound. -/
theorem publicContract_of_enabled
    (h : watched.ReachableWhere (fun w a => a.Enabled w.process) w) : PublicContract w :=
  (watchedSound_of_enabled h).toPublicContract

def demoHandle : Handle := ⟨{}, channelPolicyFor {}, 0, 0, 0⟩

/-- After the start, thread 1 logs directly and thread 2 through the gate. -/
def demoDirect : List Action :=
  demoStart ++
    [.call 1 (.logUnchecked demoHandle .warn), .thread 1 {}, .call 2 (.log demoHandle .info),
      .thread 2 {}, .thread 2 {}]

theorem publicContract_direct :
    ∃ w, watched.Reachable w ∧
      w.published = [some ⟨demoHandle, .info, true⟩, some ⟨demoHandle, .warn, true⟩] ∧
      PublicContract w := by
  have hrun : (watched.runWhere (fun w a => a.Enabled w.process) Watched.initial demoDirect).map
      Watched.published = some [some ⟨demoHandle, .info, true⟩, some ⟨demoHandle, .warn, true⟩] := by
    decide +kernel
  obtain ⟨w, hw, hpublished⟩ := Option.map_eq_some_iff.mp hrun
  have hinitial : watched.ReachableWhere (fun w a => a.Enabled w.process) Watched.initial :=
    .initial rfl
  have henabled := hinitial.runWhere hw
  exact ⟨w, henabled.reachable, hpublished, publicContract_of_enabled henabled⟩

/-- The handle of a second channel, which any thread may use. -/
def demoSharedHandle : Handle := ⟨{}, channelPolicyFor { runtimeMode := .threadsafe }, 0, 0, 1⟩

/-- Before any start, thread 2 logs directly to a shared channel, then thread 1 to its own. -/
def demoUnstarted : List Action :=
  [.call 1 (.operate {} (.makeChannel {})), .thread 1 {}, .thread 1 {},
    .call 2 (.operate {} (.makeChannel { runtimeMode := .threadsafe, name := ascii "shared" })),
    .thread 2 {}, .thread 2 {},
    .call 2 (.logUnchecked demoSharedHandle .info), .thread 2 {},
    .call 1 (.logUnchecked demoHandle .info), .thread 1 {}]

/-- Both channels are off: one record is published all the same, the other call dereferences
the producer that no start has made. -/
theorem not_publicContract_unstarted :
    ∃ w, watched.run Watched.initial demoUnstarted = some w ∧
      w.published = [some ⟨demoSharedHandle, .info, false⟩] ∧
      w.process.result 1 = some .nullDereference ∧ ¬ PublicContract w := by
  have hrun : (watched.run Watched.initial demoUnstarted).map
      (fun w => (w.published, w.process.result 1)) =
        some ([some ⟨demoSharedHandle, .info, false⟩], some .nullDereference) := by
    decide +kernel
  obtain ⟨w, hw, hfacts⟩ := Option.map_eq_some_iff.mp hrun
  obtain ⟨hpublished, hresult⟩ := Prod.mk.inj hfacts
  refine ⟨w, hw, hpublished, hresult, fun hcontract => ?_⟩
  exact hcontract.sound 1 hresult

end Unlog.Control
