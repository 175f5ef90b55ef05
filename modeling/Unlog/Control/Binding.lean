import Unlog.Control.Lifecycle

/-! # One configuration per runtime

A runtime is bound once, to the backend of one configuration, and whoever works on a backend
works for its configuration and on its runtime. -/

namespace Unlog

/-- All of a route but its levels. -/
def RouteState.entry (route : RouteState) := (route.id, route.name, route.sink)

namespace RuntimeState

def identity (runtime : RuntimeState) := (runtime.producerBackend, runtime.global)

/-- What registration and binding write. -/
def registry (runtime : RuntimeState) :=
  (runtime.identity, runtime.clockType, runtime.channelIds, runtime.channels.map RouteState.entry,
    runtime.configuredSinks, runtime.customSinks, runtime.customSinkRequirements)

theorem identity_eq {runtime runtime' : RuntimeState} (h : runtime'.identity = runtime.identity) :
    runtime'.producerBackend = runtime.producerBackend ∧ runtime'.global = runtime.global := by
  simpa [identity] using h

end RuntimeState

/-- What a backend is, whatever it has registered and made. -/
def ProducerBackend.identity (backend : ProducerBackend) := (backend.config, backend.waker)

end Unlog

namespace Unlog.Control

open RuntimeState

variable {s s' : Process} {t i j b : ℕ} {answers : Answers} {config : GlobalConfig}
  {ok : Process → ℕ → Answers → Prop}

/-- Runtime `i` was bound to `config` by the calls of `configured<config>`. -/
def Binds (s : Process) (i b : ℕ) (config : GlobalConfig) : Prop :=
  (s.runtimes i).producerBackend = some b ∧ (s.runtimes i).global = config

def CallPc.performs? : CallPc → Option (GlobalConfig × ℕ)
  | .perform config b _ => some (config, b)
  | .prewarmState config b => some (config, b)
  | _ => none

def CallPc.handle? : CallPc → Option Handle
  | .setRouteLevel handle _ | .gate handle _ | .produce handle _ => some handle
  | _ => none

structure HandleSound (s : Process) (handle : Handle) : Prop where
  binds : Binds s handle.runtime handle.backend handle.config
  route_lt : handle.route < (s.runtimes handle.runtime).channels.length

structure BindingSound (s : Process) : Prop where
  bound : ∀ i b, (s.runtimes i).producerBackend = some b →
    i < s.runtimeCount ∧ b < s.backendCount ∧
      (s.backends b).identity = ((s.runtimes i).global, some i)
  passed : ∀ t config b, (s.pc t).performs? = some (config, b) → ∃ i, Binds s i b config
  handles : ∀ handle ∈ s.handles, HandleSound s handle
  held : ∀ t handle, (s.pc t).handle? = some handle → handle ∈ s.handles
  acts : ∀ act ∈ s.acts, act.current = some act.runtime ∧
    Binds s act.runtime act.backend act.config
  running : ∀ i, s.lifecycle = .running → s.state = some i →
    (s.runtimes i).producerBackend ≠ none

theorem BindingSound.unique {i j : ℕ} (hs : BindingSound s)
    (hi : (s.runtimes i).producerBackend = some b) (hj : (s.runtimes j).producerBackend = some b) :
    i = j := by
  have h := (hs.bound i b hi).2.2.symm.trans (hs.bound j b hj).2.2
  simpa using congrArg Prod.snd h

/-- A call that got past `access_producer_backend` and finds its backend in a runtime. -/
theorem BindingSound.binds (hs : BindingSound s)
    (hpc : (s.pc t).performs? = some (config, b))
    (hbackend : (s.runtimes i).producerBackend = some b) : Binds s i b config := by
  obtain ⟨j, hj⟩ := hs.passed t config b hpc
  obtain rfl := hs.unique hbackend hj.1
  exact hj

/-! ## Growth -/

/-- Bindings are for ever, and routes are not removed. -/
structure Grows (s s' : Process) : Prop where
  runtimeCount_le : s.runtimeCount ≤ s'.runtimeCount
  backendCount_le : s.backendCount ≤ s'.backendCount
  binds : ∀ i b config, Binds s i b config → Binds s' i b config
  length_le : ∀ i < s.runtimeCount,
    (s.runtimes i).channels.length ≤ (s'.runtimes i).channels.length
  handles : s.handles ⊆ s'.handles

theorem HandleSound.congr {handle : Handle} (h : HandleSound s handle)
    (hruntimes : s'.runtimes = s.runtimes) : HandleSound s' handle := by
  refine ⟨?_, ?_⟩
  · rw [Binds, hruntimes]
    exact h.binds
  · rw [hruntimes]
    exact h.route_lt

theorem HandleSound.grow {handle : Handle} (h : HandleSound s handle) (hs : BindingSound s)
    (hgrows : Grows s s') : HandleSound s' handle where
  binds := hgrows.binds _ _ _ h.binds
  route_lt := h.route_lt.trans_le (hgrows.length_le _ (hs.bound _ _ h.binds.1).1)

/-- What a thread does to the bindings. -/
inductive BindEffect (s : Process) (t : ℕ) (s' : Process) : Prop
  | keep (hruntimes : ∀ i, (s'.runtimes i).identity = (s.runtimes i).identity)
      (hbackends : ∀ b, (s'.backends b).identity = (s.backends b).identity)
      (hcount : s'.backendCount = s.backendCount)
  | bind {config : GlobalConfig} {operation : Operation} {i : ℕ}
      (hpc : s.pc t = .access config operation) (hstate : s.state = some i)
      (hbackend : (s.runtimes i).producerBackend = none)
      (hnext : s' = (s.bindBackend i config).setPc t (.perform config s.backendCount operation))

theorem setBackend_congr {α : Type*} (f : ProducerBackend → α) {backend : ProducerBackend}
    (h : f backend = f (s.backends b)) (b' : ℕ) :
    f ((s.setBackend b backend).backends b') = f (s.backends b') := by
  by_cases hb : b' = b
  · subst hb
    rw [Process.setBackend_backends_self, h]
  · rw [Process.setBackend_backends_of_ne _ hb]

theorem setBackend_self {p : ProducerBackend → Prop} {backend : ProducerBackend}
    (h : p backend) : p ((s.setBackend b backend).backends b) := by
  rwa [Process.setBackend_backends_self]

theorem identity_prepareStart (backend : ProducerBackend) (answers : Answers) :
    (backend.prepareStart answers).1.identity = backend.identity := by
  simp [ProducerBackend.identity]

theorem identity_registerChannel (backend : ProducerBackend) (mode : RuntimeMode)
    (hugePages : Bool) :
    (backend.registerChannel mode hugePages).identity = backend.identity := by
  simp [ProducerBackend.identity]

theorem ThreadEffect.binding (h : ThreadEffect s t answers s') : BindEffect s t s' := by
  cases h with
  | bind hpc hstate hbackend => exact .bind hpc hstate hbackend rfl
  | emplace =>
      exact .keep (setRuntime_congr identity rfl)
        (setBackend_congr ProducerBackend.identity (identity_registerChannel _ _ _)) rfl
  | startUnprepared =>
      exact .keep (fun _ => rfl)
        (setBackend_congr ProducerBackend.identity (identity_prepareStart _ _)) rfl
  | startThreadless | startRepeated | started =>
      exact .keep (setRuntime_congr identity rfl)
        (setBackend_congr ProducerBackend.identity (identity_prepareStart _ _)) rfl
  | pushSink | storeGlobal | storeRoute | countFlusher | uncountFlusher | requestFlush | destroy
  | requestStop | join | resetSinks => exact .keep (setRuntime_congr identity rfl) (fun _ => rfl) rfl
  | _ => exact .keep (fun _ => rfl) (fun _ => rfl) rfl

theorem ThreadEffect.handles_subset (h : ThreadEffect s t answers s') :
    s.handles ⊆ s'.handles := by
  cases h with
  | emplace => exact List.subset_cons_self _ _
  | _ => exact List.Subset.refl _

theorem ThreadEffect.runtimeCount_eq (h : ThreadEffect s t answers s') :
    s'.runtimeCount = s.runtimeCount := by
  cases h <;> rfl

/-- A thread appends routes, and otherwise keeps their number. -/
theorem ThreadEffect.length_le (h : ThreadEffect s t answers s') (i : ℕ) :
    (s.runtimes i).channels.length ≤ (s'.runtimes i).channels.length := by
  have hset : ∀ {j : ℕ} {runtime : RuntimeState},
      (s.runtimes j).channels.length ≤ runtime.channels.length →
      (s.runtimes i).channels.length ≤ ((s.setRuntime j runtime).runtimes i).channels.length := by
    intro j runtime hle
    by_cases hi : i = j
    · subst hi
      rwa [Process.setRuntime_runtimes_self]
    · rw [Process.setRuntime_runtimes_of_ne _ hi]
  cases h with
  | emplace => exact hset (by simp [RuntimeState.emplaceChannel])
  | storeGlobal | destroy | resetSinks | startThreadless | startRepeated | started =>
      exact hset (List.length_map _).ge
  | storeRoute => exact hset (List.length_modify _ _ _).ge
  | bind | pushSink | countFlusher | uncountFlusher | requestFlush | requestStop | join =>
      exact hset le_rfl
  | _ => exact le_rfl

theorem BindEffect.binds (h : BindEffect s t s') (hbinds : Binds s i b config) :
    Binds s' i b config := by
  cases h with
  | keep hruntimes =>
      obtain ⟨hbackend, hglobal⟩ := identity_eq (hruntimes i)
      exact ⟨hbackend.trans hbinds.1, hglobal.trans hbinds.2⟩
  | @bind _ _ j hpc hstate hbackend hnext =>
      subst hnext
      have hne : i ≠ j := by
        rintro rfl
        exact absurd (hbackend.symm.trans hbinds.1) (by simp)
      exact setRuntime_other (p := fun r => r.producerBackend = some b ∧ r.global = config) hne
        hbinds

theorem ThreadEffect.grows (h : ThreadEffect s t answers s') : Grows s s' where
  runtimeCount_le := h.runtimeCount_eq.ge
  backendCount_le := by
    cases h.binding with
    | keep _ _ hcount => exact hcount.ge
    | bind _ _ _ hnext =>
        subst hnext
        exact Nat.le_succ _
  binds i b config := h.binding.binds
  length_le i _ := h.length_le i
  handles := h.handles_subset

theorem Prelude.grows {m : Process} (hbinding : BindingSound s) (h : Prelude s t answers m) :
    Grows s m := by
  cases h with
  | none => exact ⟨le_rfl, le_rfl, fun _ _ _ h => h, fun _ _ => le_rfl, List.Subset.refl _⟩
  | hook => exact ⟨le_rfl, le_rfl, fun _ _ _ h => h, fun _ _ => le_rfl, List.Subset.refl _⟩
  | create =>
      refine ⟨Nat.le_succ _, le_rfl, fun i b config hbinds => ?_, fun i hi => ?_,
        List.Subset.refl _⟩
      · have hlt := (hbinding.bound i b hbinds.1).1
        exact setRuntime_other (p := fun r => r.producerBackend = some b ∧ r.global = config)
          hlt.ne hbinds
      · exact setRuntime_other (p := fun r => (s.runtimes i).channels.length ≤ r.channels.length)
          hi.ne le_rfl

/-! ## Steps -/

theorem ThreadEffect.performs? (h : ThreadEffect s t answers s')
    (hperforms : (s'.pc t).performs? = some (config, b)) :
    (s.pc t).performs? = some (config, b) ∨ ∃ i, Binds s' i b config := by
  cases h with
  | move hmove =>
      rw [Process.setPc_pc_self] at hperforms
      generalize s.pc t = old at hmove
      cases hmove with
      | @perform _ _ i _ hstate hbackend hconfig =>
          obtain ⟨rfl, rfl⟩ := Prod.mk.inj (Option.some.inj hperforms)
          exact .inr ⟨i, hbackend, hconfig⟩
      | prewarm => exact .inl hperforms
      | _ => contradiction
  | @bind _ _ i hpc hstate hbackend =>
      rw [Process.setPc_pc_self] at hperforms
      obtain ⟨rfl, rfl⟩ := Prod.mk.inj (Option.some.inj hperforms)
      exact .inr ⟨i, setRuntime_self (p := fun r => r.producerBackend = _ ∧ r.global = _)
        ⟨rfl, rfl⟩⟩
  | _ =>
      have hself := hperforms.symm.trans (congrArg CallPc.performs? (Function.update_self ..))
      simp [CallPc.performs?] at hself

theorem Next.handle? {pc next : CallPc} (hnext : Next s pc next) {handle : Handle}
    (h : next.handle? = some handle) : pc.handle? = some handle := by
  cases hnext with
  | move hmove =>
      cases hmove with
      | enabled => exact h
      | _ => contradiction
  | _ => contradiction

/-- The new handle, and the new act. -/
theorem ThreadEffect.handle_new (hs : BindingSound s) (h : ThreadEffect s t answers s')
    {handle : Handle} (hmem : handle ∈ s'.handles) :
    handle ∈ s.handles ∨ HandleSound s' handle := by
  cases h with
  | @emplace config i b conf sink sinks hpc hstate hlifecycle hbackend =>
      rcases List.mem_cons.mp hmem with rfl | hmem
      · have hbinds : Binds s i b config := hs.binds (by rw [hpc]; rfl) hbackend
        refine .inr ⟨setRuntime_self (p := fun r => r.producerBackend = some b ∧ r.global = config)
          hbinds, ?_⟩
        refine setRuntime_self (p := fun r => (s.runtimes i).channels.length < r.channels.length) ?_
        simp [RuntimeState.emplaceChannel]
      · exact .inl hmem
  | _ => exact .inl hmem

theorem ThreadEffect.act_new (hs : BindingSound s) (h : ThreadEffect s t answers s') {act : Act}
    (hmem : act ∈ s'.acts) :
    act ∈ s.acts ∨ act.current = some act.runtime ∧ Binds s act.runtime act.backend act.config := by
  -- an act of a call that got past `access_producer_backend`
  have hnew : ∀ {config : GlobalConfig} {i b : ℕ}, (s.pc t).performs? = some (config, b) →
      s.state = some i → (s.runtimes i).producerBackend = some b →
      act ∈ ⟨s.state, i, b, config⟩ :: s.acts → act ∈ s.acts ∨
        act.current = some act.runtime ∧ Binds s act.runtime act.backend act.config := by
    intro config i b hpc hstate hbackend hmem
    rcases List.mem_cons.mp hmem with rfl | hmem
    · exact .inr ⟨hstate, hs.binds hpc hbackend⟩
    · exact .inl hmem
  cases h with
  | emplace _ _ hpc hstate _ hbackend =>
      exact hnew (by rw [hpc]; rfl) hstate hbackend hmem
  | pushSink hpc hstate _ hbackend => exact hnew (by rw [hpc]; rfl) hstate hbackend hmem
  | storeGlobal hpc hstate hbackend => exact hnew (by rw [hpc]; rfl) hstate hbackend hmem
  | queryLevel hpc hstate hbackend => exact hnew (by rw [hpc]; rfl) hstate hbackend hmem
  | flushBegin hpc hstate hbackend => exact hnew (by rw [hpc]; rfl) hstate hbackend hmem
  | prewarm hpc hstate hbackend => exact hnew (by rw [hpc]; rfl) hstate hbackend hmem
  | startUnprepared hpc checked | startThreadless hpc checked | startRepeated hpc checked
  | started hpc checked =>
      exact hnew (by rw [hpc]; rfl) checked.state checked.backend hmem
  | @storeRoute handle level i hpc hstate hbackend =>
      rcases List.mem_cons.mp hmem with rfl | hmem
      · have hbinds := (hs.handles handle (hs.held t handle (by rw [hpc]; rfl))).binds
        refine .inr ⟨?_, hbinds⟩
        -- a route of the backend that the current runtime has is a route of that runtime
        obtain rfl := hs.unique hbackend hbinds.1
        exact hstate
      · exact .inl hmem
  | _ => exact .inl hmem

theorem BindingSound.thread (hs : BindingSound s) (hlifecycle : LifecycleSound s)
    (h : ThreadEffect s t answers s') : BindingSound s' := by
  have hgrows := h.grows
  exact
    { bound := fun i b hb => by
        cases h.binding with
        | keep hruntimes hbackends hcount =>
            obtain ⟨hbackend, hglobal⟩ := identity_eq (hruntimes i)
            rw [h.runtimeCount_eq, hcount, hbackends, hglobal]
            exact hs.bound i b (hbackend ▸ hb)
        | @bind config operation j hpc hstate hbackend hnext =>
            subst hnext
            by_cases hi : i = j
            · subst hi
              have hself : (((s.bindBackend i config).setPc t
                  (.perform config s.backendCount operation)).runtimes i).producerBackend =
                    some s.backendCount ∧ (((s.bindBackend i config).setPc t
                  (.perform config s.backendCount operation)).runtimes i).global = config :=
                setRuntime_self (p := fun r => r.producerBackend = some s.backendCount ∧
                  r.global = config) ⟨rfl, rfl⟩
              obtain rfl := Option.some.inj (hself.1.symm.trans hb)
              refine ⟨hlifecycle.born i hstate, Nat.lt_succ_self _, ?_⟩
              rw [hself.2]
              exact congrArg ProducerBackend.identity (Process.setBackend_backends_self _)
            · have hother : ((s.bindBackend j config).setPc t
                  (.perform config s.backendCount operation)).runtimes i = s.runtimes i :=
                Process.setRuntime_runtimes_of_ne _ hi
              rw [hother] at hb ⊢
              obtain ⟨hlt, hlt', hidentity⟩ := hs.bound i b hb
              refine ⟨hlt, Nat.lt_succ_of_lt hlt', ?_⟩
              rw [← hidentity]
              exact congrArg ProducerBackend.identity
                (Process.setBackend_backends_of_ne _ hlt'.ne)
      passed := fun t' config b hperforms => by
        by_cases ht : t' = t
        · subst ht
          rcases h.performs? hperforms with hold | hnew
          · obtain ⟨i, hi⟩ := hs.passed t' config b hold
            exact ⟨i, hgrows.binds i b config hi⟩
          · exact hnew
        · rw [h.pc_of_ne ht] at hperforms
          obtain ⟨i, hi⟩ := hs.passed t' config b hperforms
          exact ⟨i, hgrows.binds i b config hi⟩
      handles := fun handle hmem => by
        rcases h.handle_new hs hmem with hold | hnew
        · exact (hs.handles handle hold).grow hs hgrows
        · exact hnew
      held := fun t' handle hheld => by
        by_cases ht : t' = t
        · subst ht
          exact hgrows.handles (hs.held t' handle (h.next_self.handle? hheld))
        · rw [h.pc_of_ne ht] at hheld
          exact hgrows.handles (hs.held t' handle hheld)
      acts := fun act hmem => by
        rcases h.act_new hs hmem with hold | ⟨hcurrent, hbinds⟩
        · obtain ⟨hcurrent, hbinds⟩ := hs.acts act hold
          exact ⟨hcurrent, hgrows.binds _ _ _ hbinds⟩
        · exact ⟨hcurrent, hgrows.binds _ _ _ hbinds⟩
      running := fun i hrunning hstate => by
        have hbound : ∃ b, (s.runtimes i).producerBackend = some b := by
          rcases h.running hlifecycle hrunning hstate with ⟨hold, hold'⟩ | ⟨b, checked⟩
          · exact Option.ne_none_iff_exists'.mp (hs.running i hold hold')
          · exact ⟨b, checked.backend⟩
        obtain ⟨b, hb⟩ := hbound
        rw [(hgrows.binds i b _ ⟨hb, rfl⟩).1]
        simp }

theorem BindingSound.call {pc : CallPc} (hs : BindingSound s) (hentry : Entry s pc) :
    BindingSound (s.setPc t pc) where
  bound := hs.bound
  passed t' config b hperforms := by
    by_cases ht : t' = t
    · rw [ht, Process.setPc_pc_self] at hperforms
      cases hentry <;> contradiction
    · rw [Process.setPc_pc_of_ne _ ht] at hperforms
      exact hs.passed t' config b hperforms
  handles handle hmem := (hs.handles handle hmem).congr rfl
  held t' handle hheld := by
    by_cases ht : t' = t
    · rw [ht, Process.setPc_pc_self] at hheld
      cases hentry with
      | setLevel _ hmem | log _ hmem | logUnchecked hmem => exact Option.some.inj hheld ▸ hmem
      | _ => contradiction
    · rw [Process.setPc_pc_of_ne _ ht] at hheld
      exact hs.held t' handle hheld
  acts := hs.acts
  running := hs.running

theorem BindingSound.prelude {m : Process} (hs : BindingSound s) (h : Prelude s t answers m) :
    BindingSound m := by
  have hgrows := h.grows hs
  cases h with
  | none => exact hs
  | hook =>
      exact ⟨hs.bound, hs.passed, fun handle hmem => (hs.handles handle hmem).congr rfl, hs.held,
        hs.acts, hs.running⟩
  | create =>
      exact
        { bound := fun i b hb => by
            by_cases hi : i = s.runtimeCount
            · have hself : ((s.createState answers.anchors).registerProcessExitHook.runtimes
                  i).producerBackend = none := by
                rw [hi]
                exact congrArg producerBackend (Process.createState_runtimes_self _)
              rw [hself] at hb
              contradiction
            · have hother : (s.createState answers.anchors).registerProcessExitHook.runtimes i =
                  s.runtimes i := Process.createState_runtimes_of_ne _ hi
              rw [hother] at hb ⊢
              obtain ⟨hlt, hlt', hidentity⟩ := hs.bound i b hb
              exact ⟨Nat.lt_succ_of_lt hlt, hlt', hidentity⟩
          passed := fun t' config b hperforms => by
            obtain ⟨i, hi⟩ := hs.passed t' config b hperforms
            exact ⟨i, hgrows.binds i b config hi⟩
          handles := fun handle hmem => (hs.handles handle hmem).grow hs hgrows
          held := hs.held
          acts := fun act hmem => by
            obtain ⟨hcurrent, hbinds⟩ := hs.acts act hmem
            exact ⟨hcurrent, hgrows.binds _ _ _ hbinds⟩
          running := fun i hrunning => by contradiction }

theorem BindingSound.consumer {completed : ℕ} {phase : ConsumerPhase} (hs : BindingSound s) :
    BindingSound (s.setRuntime i { s.runtimes i with
      consumer := phase
      flushCompleted := completed }) := by
  have hidentity : ∀ j, ((s.setRuntime i { s.runtimes i with
      consumer := phase, flushCompleted := completed }).runtimes j).identity =
        (s.runtimes j).identity := setRuntime_congr identity rfl
  have hlength : ∀ j, ((s.setRuntime i { s.runtimes i with
      consumer := phase, flushCompleted := completed }).runtimes j).channels.length =
        (s.runtimes j).channels.length := setRuntime_congr (fun r => r.channels.length) rfl
  have hgrows : Grows s (s.setRuntime i { s.runtimes i with
      consumer := phase, flushCompleted := completed }) :=
    { runtimeCount_le := le_rfl
      backendCount_le := le_rfl
      binds := fun j b config hbinds => by
        obtain ⟨hbackend, hglobal⟩ := identity_eq (hidentity j)
        exact ⟨hbackend.trans hbinds.1, hglobal.trans hbinds.2⟩
      length_le := fun j _ => (hlength j).ge
      handles := List.Subset.refl _ }
  exact
    { bound := fun j b hb => by
        obtain ⟨hbackend, hglobal⟩ := identity_eq (hidentity j)
        rw [hglobal]
        exact hs.bound j b (hbackend ▸ hb)
      passed := fun t' config b hperforms => by
        obtain ⟨j, hj⟩ := hs.passed t' config b hperforms
        exact ⟨j, hgrows.binds j b config hj⟩
      handles := fun handle hmem => (hs.handles handle hmem).grow hs hgrows
      held := hs.held
      acts := fun act hmem => by
        obtain ⟨hcurrent, hbinds⟩ := hs.acts act hmem
        exact ⟨hcurrent, hgrows.binds _ _ _ hbinds⟩
      running := fun j hrunning hstate => by
        rw [(identity_eq (hidentity j)).1]
        exact hs.running j hrunning hstate }

theorem bindingSound_of_visited (h : Visited ok s) : BindingSound s := by
  induction h with
  | initial =>
      refine ⟨fun i b hb => ?_, fun t config b h => ?_, fun h hmem => ?_, fun t handle h => ?_,
        fun act hmem => ?_, fun i hrunning => ?_⟩ <;> contradiction
  | call _ _ hentry ih => exact ih.call hentry
  | prelude _ hprelude ih => exact ih.prelude hprelude
  | thread hs _ heffect ih => exact ih.thread (lifecycleSound_of_visited hs) heffect
  | @consumer s i completed phase hs hmove ih => exact ih.consumer

/-! ## The sealed registry -/

theorem entry_setLevelOf (lifecycle : RuntimeLifecycle) (level : LogLevel) (route : RouteState) :
    (setLevelOf lifecycle level route).entry = route.entry := by
  unfold setLevelOf
  split <;> rfl

theorem entry_deactivate (route : RouteState) : route.deactivate.entry = route.entry := rfl

section Entries

variable {f : RouteState → RouteState}

theorem map_entry (h : ∀ route, (f route).entry = route.entry) (channels : List RouteState) :
    (channels.map f).map RouteState.entry = channels.map RouteState.entry := by
  rw [List.map_map]
  exact List.map_congr_left fun route _ => h route

theorem map_modify {α β : Type*} {f : α → α} {g : β → β} {look : α → β}
    (h : ∀ x, look (f x) = g (look x)) (l : List α) (index : ℕ) :
    (l.modify index f).map look = (l.map look).modify index g := by
  apply List.ext_getElem?
  intro k
  simp only [List.getElem?_map, List.getElem?_modify]
  cases l[k]? with
  | none => rfl
  | some x => by_cases hk : index = k <;> simp [hk, h]

theorem modify_entry (h : ∀ route, (f route).entry = route.entry) (channels : List RouteState)
    (index : ℕ) :
    (channels.modify index f).map RouteState.entry = channels.map RouteState.entry := by
  rw [map_modify (g := id) h, List.modify_id]

theorem registry_channels {runtime : RuntimeState} {channels : List RouteState}
    (h : channels.map RouteState.entry = runtime.channels.map RouteState.entry) :
    { runtime with channels := channels }.registry = runtime.registry := by
  simp [RuntimeState.registry, RuntimeState.identity, h]

end Entries

/-- Once its consumer was started, a runtime's registry changes only when the consumer has
ended. -/
theorem ThreadEffect.sealed (hlifecycle : LifecycleSound s) (h : ThreadEffect s t answers s')
    (hbackend : (s.runtimes i).producerBackend ≠ none)
    (hstarted : (s.runtimes i).consumer ≠ .notStarted) :
    (s'.runtimes i).consumer = (s.runtimes i).consumer ∧
      ((s'.runtimes i).registry = (s.runtimes i).registry ∨
        (s.runtimes i).consumer = .ended) := by
  -- a runtime that is being configured is another one
  have hother : ∀ {j : ℕ}, s.state = some j → s.lifecycle = .configuring → i ≠ j := by
    rintro j hstate hconfiguring rfl
    obtain ⟨j, hj, hdormant⟩ := hlifecycle.configuring hconfiguring
    obtain rfl : i = j := Option.some.inj (hstate.symm.trans hj)
    exact hstarted (congrArg Prod.fst hdormant)
  have hkeep : s'.runtimes i = s.runtimes i → (s'.runtimes i).consumer = (s.runtimes i).consumer ∧
      ((s'.runtimes i).registry = (s.runtimes i).registry ∨ (s.runtimes i).consumer = .ended) :=
    fun hsame => ⟨congrArg consumer hsame, .inl (congrArg registry hsame)⟩
  have hcongr : (∀ j, ((s'.runtimes j).consumer, (s'.runtimes j).registry) =
      ((s.runtimes j).consumer, (s.runtimes j).registry)) →
      (s'.runtimes i).consumer = (s.runtimes i).consumer ∧
        ((s'.runtimes i).registry = (s.runtimes i).registry ∨ (s.runtimes i).consumer = .ended) :=
    fun hsame => ⟨congrArg Prod.fst (hsame i), .inl (congrArg Prod.snd (hsame i))⟩
  cases h with
  | @bind config operation j hpc hstate hnone =>
      refine hkeep (Process.setRuntime_runtimes_of_ne _ ?_)
      rintro rfl
      exact hbackend hnone
  | emplace _ _ _ hstate hconfiguring | pushSink _ hstate hconfiguring =>
      exact hkeep (Process.setRuntime_runtimes_of_ne _ (hother hstate hconfiguring))
  | startThreadless _ checked | startRepeated _ checked | started _ checked =>
      exact hkeep (Process.setRuntime_runtimes_of_ne _ (hother checked.state checked.lifecycle))
  | storeGlobal =>
      refine hcongr (setRuntime_congr (fun r => (r.consumer, r.registry)) ?_)
      exact congrArg (Prod.mk _) (registry_channels (map_entry (entry_setLevelOf _ _) _))
  | destroy =>
      refine hcongr (setRuntime_congr (fun r => (r.consumer, r.registry)) ?_)
      exact congrArg (Prod.mk _) (registry_channels (map_entry entry_deactivate _))
  | storeRoute =>
      refine hcongr (setRuntime_congr (fun r => (r.consumer, r.registry)) ?_)
      exact congrArg (Prod.mk _) (registry_channels (modify_entry (entry_setLevelOf _ _) _ _))
  | countFlusher | uncountFlusher | requestFlush | requestStop | join =>
      exact hcongr (setRuntime_congr (fun r => (r.consumer, r.registry)) rfl)
  | @resetSinks final j hpc =>
      by_cases hi : i = j
      · subst hi
        have hhalted := (hlifecycle.destroyer t i (by rw [hpc]; rfl)).2.2
        rw [hpc] at hhalted
        have hconsumer : ∀ j,
            ((Control.resetSinks s i).runtimes j).consumer = (s.runtimes j).consumer :=
          setRuntime_congr consumer rfl
        exact ⟨hconsumer i, .inr (hhalted.1.resolve_left hstarted)⟩
      · exact hkeep (Process.setRuntime_runtimes_of_ne _ hi)
  | _ => exact hkeep rfl

/-- Runtime `i` was started, and its registry is that of `runtime` as long as its consumer
lives. -/
structure SealedAs (runtime : RuntimeState) (i : ℕ) (s : Process) : Prop where
  born : i < s.runtimeCount
  bound : (s.runtimes i).producerBackend ≠ none
  started : (s.runtimes i).consumer ≠ .notStarted
  same : (s.runtimes i).consumer ≠ .ended → (s.runtimes i).registry = runtime.registry

theorem SealedAs.thread {runtime : RuntimeState} (hs : SealedAs runtime i s)
    (hlifecycle : LifecycleSound s) (h : ThreadEffect s t answers s') : SealedAs runtime i s' := by
  obtain ⟨hconsumer, hregistry⟩ := h.sealed hlifecycle hs.bound hs.started
  obtain ⟨b, hb⟩ := Option.ne_none_iff_exists'.mp hs.bound
  exact
    { born := h.runtimeCount_eq ▸ hs.born
      bound := by
        rw [(h.grows.binds i b _ ⟨hb, rfl⟩).1]
        simp
      started := hconsumer ▸ hs.started
      same := fun halive => by
        rw [hconsumer] at halive
        exact (hregistry.resolve_right halive).trans (hs.same halive) }

theorem SealedAs.prelude {runtime : RuntimeState} {m : Process} (hs : SealedAs runtime i s)
    (h : Prelude s t answers m) : SealedAs runtime i m := by
  cases h with
  | none => exact hs
  | hook => exact ⟨hs.born, hs.bound, hs.started, hs.same⟩
  | create =>
      have hsame : (s.createState answers.anchors).registerProcessExitHook.runtimes i =
          s.runtimes i := Process.createState_runtimes_of_ne _ hs.born.ne
      exact ⟨Nat.lt_succ_of_lt hs.born, by rw [hsame]; exact hs.bound,
        by rw [hsame]; exact hs.started, by rw [hsame]; exact hs.same⟩

theorem SealedAs.consumer {runtime : RuntimeState} {completed : ℕ} {phase : ConsumerPhase}
    (hs : SealedAs runtime i s)
    (hmove : ConsumerMove (s.runtimes j) (s.runtimes j).consumer phase completed) :
    SealedAs runtime i (s.setRuntime j { s.runtimes j with
      consumer := phase
      flushCompleted := completed }) := by
  by_cases hi : i = j
  · subst hi
    refine ⟨hs.born, setRuntime_self (p := fun r => r.producerBackend ≠ none) hs.bound,
      setRuntime_self (p := fun r => r.consumer ≠ .notStarted) ?_,
      setRuntime_self (p := fun r => r.consumer ≠ .ended → r.registry = runtime.registry) ?_⟩
    · generalize (s.runtimes i).consumer = old at hmove
      cases hmove <;> simp
    · intro _
      refine (hs.same fun hended => ?_ : (s.runtimes i).registry = _)
      rw [hended] at hmove
      cases hmove
  · have hsame : (s.setRuntime j { s.runtimes j with
        consumer := phase, flushCompleted := completed }).runtimes i = s.runtimes i :=
      Process.setRuntime_runtimes_of_ne _ hi
    exact ⟨hs.born, by rw [hsame]; exact hs.bound, by rw [hsame]; exact hs.started,
      by rw [hsame]; exact hs.same⟩

theorem sealedAs_run {runtime : RuntimeState} {actions : List Action} (h : process.Reachable s)
    (hs : SealedAs runtime i s) (hrun : process.run s actions = some s') :
    SealedAs runtime i s' := by
  refine run_induct ?_ ?_ ?_ ?_ (fun _ _ _ => trivial) (visited_of_reachable h) hs hrun
  · intro s t pc hs _
    exact ⟨hs.born, hs.bound, hs.started, hs.same⟩
  · intro s t answers m _ hs hprelude
    exact hs.prelude hprelude
  · intro s t answers s' hvisited hs heffect
    exact hs.thread (lifecycleSound_of_visited hvisited) heffect
  · intro s j phase completed _ hs hmove
    exact hs.consumer hmove

/-! ## The contract -/

structure ConfigurationContract (s : Process) : Prop where
  /-- A runtime's backend was made by the factory of its configuration. -/
  made : ∀ i b, (s.runtimes i).producerBackend = some b →
    b < s.backendCount ∧ (s.backends b).config = (s.runtimes i).global
  /-- Past `access_producer_backend`, the cast goes to the type that was made. -/
  cast : ∀ t config b, (s.pc t).performs? = some (config, b) →
    b < s.backendCount ∧ (s.backends b).config = config
  /-- No backend of another runtime is ever acted on. -/
  own : ∀ act ∈ s.acts, act.current = some act.runtime ∧
    (s.runtimes act.runtime).producerBackend = some act.backend ∧
    (∀ i, (s.runtimes i).producerBackend = some act.backend → i = act.runtime) ∧
    (s.backends act.backend).config = act.config
  /-- From a successful start until the shutdown, and until the consumer has ended. -/
  kept : ∀ i, s.state = some i → s.lifecycle = .running → ∀ actions s',
    process.run s actions = some s' →
    (s'.state = some i ∧ s'.lifecycle = .running ∨ (s'.runtimes i).consumer ≠ .ended) →
    (s'.runtimes i).registry = (s.runtimes i).registry

theorem configurationContract_of_reachable (h : process.Reachable s) :
    ConfigurationContract s := by
  have hlifecycle := lifecycleSound_of_visited (visited_of_reachable h)
  have hs := bindingSound_of_visited (visited_of_reachable h)
  have hconfig : ∀ {i b config}, Binds s i b config →
      b < s.backendCount ∧ (s.backends b).config = config := by
    intro i b config hbinds
    obtain ⟨-, hlt, hidentity⟩ := hs.bound i b hbinds.1
    exact ⟨hlt, (congrArg Prod.fst hidentity).trans hbinds.2⟩
  refine ⟨fun i b hb => hconfig ⟨hb, rfl⟩, fun t config b hpc => ?_, fun act hact => ?_, ?_⟩
  · obtain ⟨i, hi⟩ := hs.passed t config b hpc
    exact hconfig hi
  · obtain ⟨hcurrent, hbinds⟩ := hs.acts act hact
    exact ⟨hcurrent, hbinds.1, fun i hi => hs.unique hi hbinds.1, (hconfig hbinds).2⟩
  · intro i hstate hrunning actions s' hrun halive
    obtain ⟨j, hj, hserving⟩ := hlifecycle.running hrunning
    obtain rfl : i = j := Option.some.inj (hstate.symm.trans hj)
    have hsealed : SealedAs (s.runtimes i) i s :=
      { born := hlifecycle.born i hstate
        bound := hs.running i hrunning hstate
        started := fun hnot => by
          have := hserving.1
          rw [hnot] at this
          contradiction
        same := fun _ => rfl }
    refine (sealedAs_run h hsealed hrun).same ?_
    rcases halive with ⟨hstate', hrunning'⟩ | halive
    · obtain ⟨j, hj, hserving'⟩ :=
        (lifecycleSound_of_visited (visited_of_reachable (h.run hrun))).running hrunning'
      obtain rfl : i = j := Option.some.inj (hstate'.symm.trans hj)
      intro hended
      have := hserving'.1
      rw [hended] at this
      contradiction
    · exact halive

/-- While the first configuration runs, the call of another one throws. -/
theorem configurationContract_mismatch :
    ∃ s, process.run Process.initial
        (demoStart ++ [.call 2 (.operate { maxProducers := 2 } .start), .thread 2 {}]) = some s ∧
      s.lifecycle = .running ∧ (s.runtimes 0).producerBackend = some 0 ∧ s.acts.length = 2 ∧
      s.result 2 = some (.threw (.invalidArgument
        (ascii "process already uses a different compile-time global configuration"))) ∧
      ConfigurationContract s := by
  have hrun : (process.run Process.initial
      (demoStart ++ [.call 2 (.operate { maxProducers := 2 } .start), .thread 2 {}])).map
        (fun s => (s.lifecycle, (s.runtimes 0).producerBackend, s.acts.length, s.result 2)) =
      some (.running, some 0, 2, some (.threw (.invalidArgument
        (ascii "process already uses a different compile-time global configuration")))) := by
    decide +kernel
  obtain ⟨s, hs, hfacts⟩ := Option.map_eq_some_iff.mp hrun
  simp only [Prod.mk.injEq] at hfacts
  obtain ⟨hlifecycle, hbackend, hacts, hresult⟩ := hfacts
  have hinitial : process.Reachable Process.initial := .initial rfl
  exact ⟨s, hs, hlifecycle, hbackend, hacts, hresult,
    configurationContract_of_reachable (hinitial.run hs)⟩

end Unlog.Control
