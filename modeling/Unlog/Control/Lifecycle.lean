import Unlog.Control.Cases

/-! # The lifecycle

What the lifecycle says about the current runtime, its consumer, and the thread that shuts it
down. -/

namespace Unlog

open Control

namespace RuntimeState

/-- What starting and stopping write. -/
def standing (runtime : RuntimeState) :=
  (runtime.consumer, runtime.consumerStarted, runtime.stopRequested)

def Dormant (runtime : RuntimeState) : Prop := runtime.standing = (.notStarted, false, false)

/-- The consumer is in its loop, and nobody asks it to stop. -/
def Serving (runtime : RuntimeState) : Prop :=
  runtime.consumer.inLoop = true ∧ runtime.consumerStarted = true ∧ runtime.stopRequested = false

def Stopping (runtime : RuntimeState) : Prop :=
  runtime.consumer ≠ .notStarted ∧ runtime.consumerStarted = true ∧ runtime.stopRequested = true

/-- There is no consumer: there never was, or it was joined. -/
def Halted (runtime : RuntimeState) : Prop :=
  (runtime.consumer = .notStarted ∨ runtime.consumer = .ended) ∧
    runtime.consumerStarted = false ∧ runtime.stopRequested = false

variable {runtime runtime' : RuntimeState}

theorem standing_eq (h : runtime'.standing = runtime.standing) :
    runtime'.consumer = runtime.consumer ∧ runtime'.consumerStarted = runtime.consumerStarted ∧
      runtime'.stopRequested = runtime.stopRequested := by
  simpa [standing] using h

theorem Serving.congr (hserving : runtime.Serving) (h : runtime'.standing = runtime.standing) :
    runtime'.Serving := by
  obtain ⟨hconsumer, hstarted, hstop⟩ := standing_eq h
  rwa [Serving, hconsumer, hstarted, hstop]

theorem Stopping.congr (hstopping : runtime.Stopping) (h : runtime'.standing = runtime.standing) :
    runtime'.Stopping := by
  obtain ⟨hconsumer, hstarted, hstop⟩ := standing_eq h
  rwa [Stopping, hconsumer, hstarted, hstop]

theorem Halted.congr (hhalted : runtime.Halted) (h : runtime'.standing = runtime.standing) :
    runtime'.Halted := by
  obtain ⟨hconsumer, hstarted, hstop⟩ := standing_eq h
  rwa [Halted, hconsumer, hstarted, hstop]

theorem Dormant.halted (h : runtime.Dormant) : runtime.Halted := by
  obtain ⟨hconsumer, hstarted, hstop⟩ : runtime.consumer = .notStarted ∧
    runtime.consumerStarted = false ∧ runtime.stopRequested = false := by
      simpa [Dormant, standing] using h
  exact ⟨.inl hconsumer, hstarted, hstop⟩

theorem Dormant.not_started (h : runtime.Dormant) : runtime.consumerStarted = false :=
  h.halted.2.1

theorem Serving.not_halted (h : runtime.Serving) : ¬ runtime.Halted := fun hhalted => by
  rw [Serving, hhalted.2.1] at h
  exact absurd h.2.1 (by simp)

/-- A consumer's move keeps its runtime serving, or stopping. -/
theorem Serving.consumer {phase : ConsumerPhase} {completed : ℕ} (h : runtime.Serving)
    (hmove : ConsumerMove runtime runtime.consumer phase completed) :
    { runtime with consumer := phase, flushCompleted := completed }.Serving := by
  obtain ⟨hloop, hstarted, hstop⟩ := h
  refine ⟨?_, hstarted, hstop⟩
  generalize runtime.consumer = consumer at hmove hloop
  cases hmove with
  | stop hstopping =>
      rw [hstop] at hstopping
      contradiction
  | finish => contradiction
  | _ => rfl

theorem Stopping.consumer {phase : ConsumerPhase} {completed : ℕ} (h : runtime.Stopping)
    (hmove : ConsumerMove runtime runtime.consumer phase completed) :
    { runtime with consumer := phase, flushCompleted := completed }.Stopping := by
  obtain ⟨hconsumer, hstarted, hstop⟩ := h
  refine ⟨?_, hstarted, hstop⟩
  generalize runtime.consumer = consumer at hmove
  cases hmove <;> simp

theorem Halted.not_consumer {phase : ConsumerPhase} {completed : ℕ} (h : runtime.Halted) :
    ¬ ConsumerMove runtime runtime.consumer phase completed := by
  intro hmove
  obtain ⟨hconsumer | hconsumer, -⟩ := h
  · rw [hconsumer] at hmove
    cases hmove
  · rw [hconsumer] at hmove
    cases hmove

end RuntimeState

end Unlog

namespace Unlog.Control

open RuntimeState

variable {s s' : Process} {t : ℕ} {answers : Answers}

/-! ## The destroying thread -/

/-- The runtime that a thread shuts down. -/
def CallPc.destroys? : CallPc → Option ℕ
  | .awaitFlushers i _ | .requestStop i _ | .join i _ | .resetSinks i _ | .finishDestroy i _ =>
    some i
  | _ => none

/-- The lifecycle a call of `destroy_runtime` ends with. -/
def CallPc.final? : CallPc → Option RuntimeLifecycle
  | .destroy final | .awaitFlushers _ final | .requestStop _ final | .join _ final
  | .resetSinks _ final | .finishDestroy _ final => some final
  | _ => none

/-- The lifecycles that `destroy_runtime` is called with. -/
def CallPc.Final (pc : CallPc) : Prop :=
  ∀ final, pc.final? = some final → final = .shutDown ∨ final = .uninitialized

/-- What a destroying thread knows of the consumer. -/
def CallPc.Allows (runtime : RuntimeState) : CallPc → Prop
  | .awaitFlushers _ _ => runtime.Serving ∨ runtime.Halted
  | .requestStop _ _ => runtime.Serving
  | .join _ _ => runtime.Stopping
  | .resetSinks _ _ | .finishDestroy _ _ => runtime.Halted
  | _ => True

theorem CallPc.Allows.congr {pc : CallPc} {runtime runtime' : RuntimeState}
    (h : pc.Allows runtime) (hstanding : runtime'.standing = runtime.standing) :
    pc.Allows runtime' := by
  cases pc with
  | awaitFlushers =>
      exact h.imp (fun h => Serving.congr h hstanding) (fun h => Halted.congr h hstanding)
  | requestStop => exact Serving.congr h hstanding
  | join => exact Stopping.congr h hstanding
  | resetSinks => exact Halted.congr h hstanding
  | finishDestroy => exact Halted.congr h hstanding
  | _ => trivial

structure LifecycleSound (s : Process) : Prop where
  born : ∀ i, s.state = some i → i < s.runtimeCount
  uninitialized : s.lifecycle = .uninitialized → s.state = none
  configuring : s.lifecycle = .configuring → ∃ i, s.state = some i ∧ (s.runtimes i).Dormant
  running : s.lifecycle = .running → ∃ i, s.state = some i ∧ (s.runtimes i).Serving
  shuttingDown : s.lifecycle = .shuttingDown → ∃ t i, (s.pc t).destroys? = some i
  destroyer : ∀ t i, (s.pc t).destroys? = some i →
    s.lifecycle = .shuttingDown ∧ s.state = some i ∧ (s.pc t).Allows (s.runtimes i)
  unique : ∀ t t' i i', (s.pc t).destroys? = some i → (s.pc t').destroys? = some i' → t = t'
  final : ∀ t, (s.pc t).Final
  halted : ∀ i, s.state ≠ some i ∨ s.lifecycle = .shutDown → (s.runtimes i).Halted

/-- A function of a runtime that a write to it does not change is unchanged everywhere. -/
theorem setRuntime_congr {α : Type*} (f : RuntimeState → α) {i : ℕ} {runtime : RuntimeState}
    (h : f runtime = f (s.runtimes i)) (j : ℕ) :
    f ((s.setRuntime i runtime).runtimes j) = f (s.runtimes j) := by
  by_cases hj : j = i
  · subst hj
    rw [Process.setRuntime_runtimes_self, h]
  · rw [Process.setRuntime_runtimes_of_ne _ hj]

theorem setRuntime_self {p : RuntimeState → Prop} {i : ℕ} {runtime : RuntimeState}
    (h : p runtime) : p ((s.setRuntime i runtime).runtimes i) := by
  rwa [Process.setRuntime_runtimes_self]

theorem setRuntime_other {p : RuntimeState → Prop} {i j : ℕ} {runtime : RuntimeState}
    (hne : j ≠ i) (h : p (s.runtimes j)) : p ((s.setRuntime i runtime).runtimes j) := by
  rwa [Process.setRuntime_runtimes_of_ne _ hne]

/-- The program counters after a move of `t`. -/
theorem forall_pc {p : CallPc → Prop} {next : CallPc} (hpc : s'.pc = Function.update s.pc t next)
    (hnext : p next) (hothers : ∀ t', t' ≠ t → p (s.pc t')) (t' : ℕ) : p (s'.pc t') := by
  rw [hpc]
  by_cases ht : t' = t
  · subst ht
    rwa [Function.update_self]
  · rw [Function.update_of_ne ht]
    exact hothers t' ht

theorem final_of_none {pc : CallPc} (h : pc.final? = none) : pc.Final := by
  intro final hfinal
  rw [h] at hfinal
  contradiction

theorem final_idle : CallPc.idle.Final := final_of_none rfl

/-- A step of a thread that does not shut down leaves the lifecycle, and all that starting and
stopping write. -/
structure Quiet (s : Process) (t : ℕ) (next : CallPc) (s' : Process) : Prop where
  state : s'.state = s.state
  lifecycle : s'.lifecycle = s.lifecycle
  runtimeCount : s'.runtimeCount = s.runtimeCount
  standing : ∀ i, (s'.runtimes i).standing = (s.runtimes i).standing
  pc : s'.pc = Function.update s.pc t next
  before : (s.pc t).destroys? = none
  after : next.destroys? = none
  final : next.Final

theorem Quiet.destroys {pc : CallPc} (h : Quiet s t pc s') (t' : ℕ) :
    (s'.pc t').destroys? = (s.pc t').destroys? := by
  rw [h.pc]
  by_cases ht : t' = t
  · subst ht
    rw [Function.update_self, h.before, h.after]
  · rw [Function.update_of_ne ht]

theorem LifecycleSound.quiet {pc : CallPc} (hs : LifecycleSound s) (h : Quiet s t pc s') :
    LifecycleSound s' where
  born i hi := by
    rw [h.runtimeCount]
    exact hs.born i (h.state ▸ hi)
  uninitialized hl := h.state.trans (hs.uninitialized (h.lifecycle ▸ hl))
  configuring hl := by
    obtain ⟨i, hi, hdormant⟩ := hs.configuring (h.lifecycle ▸ hl)
    exact ⟨i, h.state.trans hi, (h.standing i).trans hdormant⟩
  running hl := by
    obtain ⟨i, hi, hserving⟩ := hs.running (h.lifecycle ▸ hl)
    exact ⟨i, h.state.trans hi, hserving.congr (h.standing i)⟩
  shuttingDown hl := by
    obtain ⟨t', i, hi⟩ := hs.shuttingDown (h.lifecycle ▸ hl)
    exact ⟨t', i, (h.destroys t').trans hi⟩
  destroyer t' i hi := by
    have hold := (h.destroys t').symm.trans hi
    have hne : t' ≠ t := by
      rintro rfl
      rw [h.before] at hold
      contradiction
    obtain ⟨hl, hstate, hallows⟩ := hs.destroyer t' i hold
    rw [h.lifecycle, h.state, h.pc, Function.update_of_ne hne]
    exact ⟨hl, hstate, hallows.congr (h.standing i)⟩
  unique t' t'' i i' hi hi' :=
    hs.unique t' t'' i i' ((h.destroys t').symm.trans hi) ((h.destroys t'').symm.trans hi')
  final := forall_pc h.pc h.final fun t' _ => hs.final t'
  halted i hi := by
    rw [h.state, h.lifecycle] at hi
    exact (hs.halted i hi).congr (h.standing i)

/-- A destroying thread goes on. -/
theorem LifecycleSound.advance {pc : CallPc} {i : ℕ} (hs : LifecycleSound s)
    (hbefore : (s.pc t).destroys? = some i) (hstate : s'.state = s.state)
    (hlifecycle : s'.lifecycle = s.lifecycle) (hcount : s'.runtimeCount = s.runtimeCount)
    (hothers : ∀ j, j ≠ i → s'.runtimes j = s.runtimes j) (hpc : s'.pc = Function.update s.pc t pc)
    (hafter : pc.destroys? = some i) (hallows : pc.Allows (s'.runtimes i))
    (hfinal : pc.final? = (s.pc t).final?) : LifecycleSound s' := by
  obtain ⟨hdown, hcurrent, -⟩ := hs.destroyer t i hbefore
  have hdown' : s'.lifecycle = .shuttingDown := hlifecycle.trans hdown
  have hdestroys : ∀ t', (s'.pc t').destroys? = (s.pc t').destroys? := by
    intro t'
    rw [hpc]
    by_cases ht : t' = t
    · subst ht
      rw [Function.update_self, hbefore, hafter]
    · rw [Function.update_of_ne ht]
  exact
    { born := fun j hj => by
        rw [hcount]
        exact hs.born j (hstate ▸ hj)
      uninitialized := fun hl => by
        rw [hdown'] at hl
        contradiction
      configuring := fun hl => by
        rw [hdown'] at hl
        contradiction
      running := fun hl => by
        rw [hdown'] at hl
        contradiction
      shuttingDown := fun _ => ⟨t, i, (hdestroys t).trans hbefore⟩
      destroyer := fun t' j hj => by
        have hold := (hdestroys t').symm.trans hj
        obtain rfl := hs.unique t' t j i hold hbefore
        obtain rfl : i = j := Option.some.inj (hbefore.symm.trans hold)
        rw [hpc, Function.update_self]
        exact ⟨hdown', hstate.trans hcurrent, hallows⟩
      unique := fun t' t'' j j' hj hj' =>
        hs.unique t' t'' j j' ((hdestroys t').symm.trans hj) ((hdestroys t'').symm.trans hj')
      final := forall_pc hpc (fun final hf => hs.final t final (hfinal ▸ hf))
        fun t' _ => hs.final t'
      halted := fun j hj => by
        have hj' : s.state ≠ some j ∨ s.lifecycle = .shutDown := by
          rwa [hstate, hlifecycle] at hj
        have hne : j ≠ i := by
          rintro rfl
          rw [hdown] at hj'
          exact hj'.elim (fun h => h hcurrent) (by simp)
        rw [hothers j hne]
        exact hs.halted j hj' }

/-! ## Steps -/

theorem lifecycleSound_initial : LifecycleSound Process.initial where
  born i h := by simp [Process.initial] at h
  uninitialized _ := rfl
  configuring h := by simp [Process.initial] at h
  running h := by simp [Process.initial] at h
  shuttingDown h := by simp [Process.initial] at h
  destroyer t i h := by simp [Process.initial, CallPc.destroys?] at h
  unique t t' i i' h := by simp [Process.initial, CallPc.destroys?] at h
  final _ := final_idle
  halted i _ := ⟨.inl rfl, rfl, rfl⟩

theorem LifecycleSound.call {pc : CallPc} (hs : LifecycleSound s) (hidle : s.pc t = .idle)
    (hentry : Entry s pc) : LifecycleSound (s.setPc t pc) := by
  refine hs.quiet ⟨rfl, rfl, rfl, fun _ => rfl, rfl, ?_, ?_, ?_⟩
  · rw [hidle]
    rfl
  · cases hentry <;> rfl
  · intro final hf
    cases hentry with
    | destroy _ hfinal => exact Option.some.inj hf ▸ hfinal
    | _ => simp [CallPc.final?] at hf

/-- No thread shuts down where the state pointer is null, or the lifecycle is another. -/
theorem LifecycleSound.not_destroys (hs : LifecycleSound s)
    (h : s.state = none ∨ s.lifecycle ≠ .shuttingDown) (t : ℕ) : (s.pc t).destroys? = none := by
  cases hd : (s.pc t).destroys? with
  | none => rfl
  | some i =>
      obtain ⟨hlifecycle, hstate, -⟩ := hs.destroyer t i hd
      rcases h with h | h
      · rw [h] at hstate
        contradiction
      · exact absurd hlifecycle h

theorem LifecycleSound.prelude {m : Process} (hs : LifecycleSound s)
    (h : Prelude s t answers m) : LifecycleSound m := by
  cases h with
  | none => exact hs
  | hook hpc hstate => exact ⟨hs.born, hs.uninitialized, hs.configuring, hs.running,
      hs.shuttingDown, hs.destroyer, hs.unique, hs.final, hs.halted⟩
  | create hpc hstate hlifecycle =>
      have hnone := hs.not_destroys (.inl hstate)
      exact
        { born := fun i hi => by
            obtain rfl := Option.some.inj hi
            exact Nat.lt_succ_self _
          uninitialized := fun hl => by contradiction
          configuring := fun _ =>
            ⟨s.runtimeCount, rfl, congrArg standing (Process.createState_runtimes_self _)⟩
          running := fun hl => by contradiction
          shuttingDown := fun hl => by contradiction
          destroyer := fun t' i hi => absurd (hi.symm.trans (hnone t')) (by simp)
          unique := fun t' t'' i i' hi => absurd (hi.symm.trans (hnone t')) (by simp)
          final := hs.final
          halted := fun i hi => by
            by_cases hi' : i = s.runtimeCount
            · subst hi'
              exact hi.elim (fun h => absurd rfl h) (fun h => by contradiction)
            · have hold : (s.runtimes i).Halted := hs.halted i (.inl (by rw [hstate]; simp))
              exact hold.congr (congrArg standing (Process.createState_runtimes_of_ne _ hi')) }

/-- `destroy_runtime` where there is no runtime. -/
theorem LifecycleSound.destroyNone {final : RuntimeLifecycle} (hs : LifecycleSound s)
    (hpc : s.pc t = .destroy final) (hstate : s.state = none) :
    LifecycleSound { s.finish t .done with lifecycle := final } := by
  have hnone : ∀ t', ((s.finish t .done).pc t').destroys? = none :=
    forall_pc (p := fun pc => pc.destroys? = none) (s := s) rfl rfl
      fun t' _ => hs.not_destroys (.inl hstate) t'
  have hfinal := hs.final t final (by rw [hpc]; rfl)
  have hstate' : ({ s.finish t .done with lifecycle := final } : Process).state = none := hstate
  exact
    { born := fun i hi => by
        rw [hstate'] at hi
        contradiction
      uninitialized := fun _ => hstate
      configuring := fun hl => by
        obtain rfl : final = .configuring := hl
        simp at hfinal
      running := fun hl => by
        obtain rfl : final = .running := hl
        simp at hfinal
      shuttingDown := fun hl => by
        obtain rfl : final = .shuttingDown := hl
        simp at hfinal
      destroyer := fun t' i hi => absurd (hi.symm.trans (hnone t')) (by simp)
      unique := fun t' t'' i i' hi => absurd (hi.symm.trans (hnone t')) (by simp)
      final := forall_pc (p := CallPc.Final) (s := s) rfl final_idle fun t' _ => hs.final t'
      halted := fun i _ => hs.halted i (.inl (by rw [hstate]; simp)) }

/-- The first critical section of `destroy_runtime`. -/
theorem LifecycleSound.destroy {final : RuntimeLifecycle} {i : ℕ} (hs : LifecycleSound s)
    (hpc : s.pc t = .destroy final) (hlifecycle : s.lifecycle ≠ .shuttingDown)
    (hstate : s.state = some i) :
    LifecycleSound { (deactivateRuntime s i).setPc t (.awaitFlushers i final) with
      lifecycle := .shuttingDown } := by
  have hnone := hs.not_destroys (.inr hlifecycle)
  have hfinal := hs.final t final (by rw [hpc]; rfl)
  have hstanding : ∀ j, ((deactivateRuntime s i).runtimes j).standing = (s.runtimes j).standing :=
    setRuntime_congr standing rfl
  have hallows : (s.runtimes i).Serving ∨ (s.runtimes i).Halted := by
    cases hl : s.lifecycle with
    | uninitialized => exact absurd (hstate.symm.trans (hs.uninitialized hl)) (by simp)
    | configuring =>
        obtain ⟨j, hj, hdormant⟩ := hs.configuring hl
        obtain rfl : i = j := Option.some.inj (hstate.symm.trans hj)
        exact .inr hdormant.halted
    | running =>
        obtain ⟨j, hj, hserving⟩ := hs.running hl
        obtain rfl : i = j := Option.some.inj (hstate.symm.trans hj)
        exact .inl hserving
    | shuttingDown => exact absurd hl hlifecycle
    | shutDown => exact .inr (hs.halted i (.inr hl))
  -- the destroying thread is `t`
  have honly : ∀ t' j, (((deactivateRuntime s i).setPc t (.awaitFlushers i final)).pc
      t').destroys? = some j → t' = t ∧ j = i := by
    intro t' j hj
    by_cases ht : t' = t
    · subst ht
      rw [Process.setPc_pc_self] at hj
      exact ⟨rfl, (Option.some.inj hj).symm⟩
    · rw [Process.setPc_pc_of_ne _ ht] at hj
      exact absurd (hj.symm.trans (hnone t')) (by simp)
  exact
    { born := hs.born
      uninitialized := fun hl => by contradiction
      configuring := fun hl => by contradiction
      running := fun hl => by contradiction
      shuttingDown := fun _ => ⟨t, i, congrArg CallPc.destroys? (Process.setPc_pc_self _)⟩
      destroyer := fun t' j hj => by
        obtain ⟨rfl, rfl⟩ := honly t' j hj
        refine ⟨rfl, hstate, ?_⟩
        rw [show _ = CallPc.awaitFlushers j final from Process.setPc_pc_self _]
        exact hallows.imp (·.congr (hstanding j)) (·.congr (hstanding j))
      unique := fun t' t'' j j' hj hj' => (honly t' j hj).1.trans (honly t'' j' hj').1.symm
      final := forall_pc (p := CallPc.Final) (s := s) rfl
        (fun final' hf => Option.some.inj hf ▸ hfinal)
        fun t' _ => hs.final t'
      halted := fun j hj => (hs.halted j (hj.imp_right fun h => by contradiction)).congr
        (hstanding j) }

/-- The second critical section of `destroy_runtime`. -/
theorem LifecycleSound.finishDestroy {final : RuntimeLifecycle} {i : ℕ} (hs : LifecycleSound s)
    (hpc : s.pc t = .finishDestroy i final) : LifecycleSound (Control.finishDestroy s t final) := by
  have hfinal := hs.final t final (by rw [hpc]; rfl)
  have hthread : (s.pc t).destroys? = some i := by rw [hpc]; rfl
  obtain ⟨hdown, hstate, hallows⟩ := hs.destroyer t i hthread
  have hhalted : (s.runtimes i).Halted := by
    rw [hpc] at hallows
    exact hallows
  have hnone : ∀ t', ((Control.finishDestroy s t final).pc t').destroys? = none := by
    refine forall_pc (p := fun pc => pc.destroys? = none) (s := s) rfl rfl fun t' ht => ?_
    cases hd : (s.pc t').destroys? with
    | none => rfl
    | some j => exact absurd (hs.unique t' t j i hd hthread) ht
  have hstate' : ∀ j, (Control.finishDestroy s t final).state = some j → s.state = some j := by
    intro j hj
    simp only [Control.finishDestroy] at hj
    split at hj
    · contradiction
    · exact hj
  exact
    { born := fun j hj => hs.born j (hstate' j hj)
      uninitialized := fun hl => if_pos hl
      configuring := fun hl => by
        obtain rfl : final = .configuring := hl
        simp at hfinal
      running := fun hl => by
        obtain rfl : final = .running := hl
        simp at hfinal
      shuttingDown := fun hl => by
        obtain rfl : final = .shuttingDown := hl
        simp at hfinal
      destroyer := fun t' j hj => absurd (hj.symm.trans (hnone t')) (by simp)
      unique := fun t' t'' j j' hj => absurd (hj.symm.trans (hnone t')) (by simp)
      final := forall_pc (p := CallPc.Final) (s := s) rfl final_idle fun t' _ => hs.final t'
      halted := fun j _ => by
        by_cases hj : j = i
        · subst hj
          exact hhalted
        · exact hs.halted j (.inl fun h => hj (Option.some.inj (h.symm.trans hstate))) }

/-- A successful start. -/
theorem LifecycleSound.started {i : ℕ} (hs : LifecycleSound s) (hstate : s.state = some i)
    (hlifecycle : s.lifecycle = .configuring) (hpc : s'.pc = Function.update s.pc t .idle)
    (hstate' : s'.state = s.state) (hcount : s'.runtimeCount = s.runtimeCount)
    (hlifecycle' : s'.lifecycle = .running) (hserving : (s'.runtimes i).Serving)
    (hothers : ∀ j, j ≠ i → s'.runtimes j = s.runtimes j) : LifecycleSound s' := by
  have hnone : ∀ t', (s'.pc t').destroys? = none :=
    forall_pc (p := fun pc => pc.destroys? = none) hpc rfl
      fun t' _ => hs.not_destroys (.inr (by rw [hlifecycle]; simp)) t'
  exact
    { born := fun j hj => by
        rw [hcount]
        exact hs.born j (hstate' ▸ hj)
      uninitialized := fun hl => by
        rw [hlifecycle'] at hl
        contradiction
      configuring := fun hl => by
        rw [hlifecycle'] at hl
        contradiction
      running := fun _ => ⟨i, hstate'.trans hstate, hserving⟩
      shuttingDown := fun hl => by
        rw [hlifecycle'] at hl
        contradiction
      destroyer := fun t' j hj => absurd (hj.symm.trans (hnone t')) (by simp)
      unique := fun t' t'' j j' hj => absurd (hj.symm.trans (hnone t')) (by simp)
      final := forall_pc hpc final_idle fun t' _ => hs.final t'
      halted := fun j hj => by
        have hne : j ≠ i := by
          rintro rfl
          rw [hstate', hlifecycle'] at hj
          exact hj.elim (fun h => h hstate) (by simp)
        rw [hothers j hne]
        refine hs.halted j (.inl fun h => hne (Option.some.inj (h.symm.trans hstate))) }

/-- The moves that write nothing. -/
theorem LifecycleSound.move {pc : CallPc} (hs : LifecycleSound s) (hmove : Move s (s.pc t) pc) :
    LifecycleSound (s.setPc t pc) := by
  generalize hpc : s.pc t = old at hmove
  cases hmove with
  | @alone i final hnone hstarted =>
      have hbefore : (s.pc t).destroys? = some i := by rw [hpc]; rfl
      have hallows := (hs.destroyer t i hbefore).2.2
      rw [hpc] at hallows
      refine hs.advance hbefore rfl rfl rfl (fun _ _ => rfl) rfl rfl ?_ (by rw [hpc]; rfl)
      rcases hallows with hserving | hhalted
      · exact hserving
      · exact absurd (hhalted.2.1.symm.trans hstarted) (by simp)
  | @unstarted i final hnone hstarted =>
      have hbefore : (s.pc t).destroys? = some i := by rw [hpc]; rfl
      have hallows := (hs.destroyer t i hbefore).2.2
      rw [hpc] at hallows
      refine hs.advance hbefore rfl rfl rfl (fun _ _ => rfl) rfl rfl ?_ (by rw [hpc]; rfl)
      rcases hallows with hserving | hhalted
      · exact absurd (hserving.2.1.symm.trans hstarted) (by simp)
      · exact hhalted
  | _ =>
      exact hs.quiet ⟨rfl, rfl, rfl, fun _ => rfl, rfl, by rw [hpc]; rfl, rfl,
        final_of_none rfl⟩

theorem CallPc.destroys?_of_throws {pc : CallPc} (h : pc.throws = true) : pc.destroys? = none := by
  cases pc <;> first | rfl | contradiction

theorem LifecycleSound.return {result : Result} (hs : LifecycleSound s)
    (h : Return s (s.pc t) result) : LifecycleSound (s.finish t result) := by
  refine hs.quiet ⟨rfl, rfl, rfl, fun _ => rfl, rfl, ?_, rfl, final_idle⟩
  generalize s.pc t = old at h
  cases h with
  | threw error h => exact CallPc.destroys?_of_throws h
  | _ => rfl

theorem LifecycleSound.dormant {i b : ℕ} (hs : LifecycleSound s) (checked : StartChecked s i b) :
    (s.runtimes i).Dormant := by
  obtain ⟨j, hj, hdormant⟩ := hs.configuring checked.lifecycle
  obtain rfl : i = j := Option.some.inj (checked.state.symm.trans hj)
  exact hdormant

theorem LifecycleSound.thread (hs : LifecycleSound s) (h : ThreadEffect s t answers s') :
    LifecycleSound s' := by
  -- the writes outside of starting and stopping
  have hquiet : ∀ {old next : CallPc}, s.pc t = old → old.destroys? = none →
      next.destroys? = none → next.final? = none → s'.state = s.state →
      s'.lifecycle = s.lifecycle → s'.runtimeCount = s.runtimeCount →
      (∀ i, (s'.runtimes i).standing = (s.runtimes i).standing) →
      s'.pc = Function.update s.pc t next → LifecycleSound s' := by
    intro old next hpc hbefore hafter hfinal hstate hlifecycle hcount hstanding hpc'
    exact hs.quiet ⟨hstate, hlifecycle, hcount, hstanding, hpc', hpc ▸ hbefore, hafter,
      final_of_none hfinal⟩
  cases h with
  | move hmove => exact hs.move hmove
  | «return» hreturn => exact hs.return hreturn
  | bind hpc => exact hquiet hpc rfl rfl rfl rfl rfl rfl (setRuntime_congr standing rfl) rfl
  | emplace _ _ hpc =>
      exact hquiet hpc rfl rfl rfl rfl rfl rfl (setRuntime_congr standing rfl) rfl
  | pushSink hpc => exact hquiet hpc rfl rfl rfl rfl rfl rfl (setRuntime_congr standing rfl) rfl
  | storeGlobal hpc => exact hquiet hpc rfl rfl rfl rfl rfl rfl (setRuntime_congr standing rfl) rfl
  | queryLevel hpc => exact hquiet hpc rfl rfl rfl rfl rfl rfl (fun _ => rfl) rfl
  | routeIgnored hpc => exact hquiet hpc rfl rfl rfl rfl rfl rfl (fun _ => rfl) rfl
  | storeRoute hpc => exact hquiet hpc rfl rfl rfl rfl rfl rfl (setRuntime_congr standing rfl) rfl
  | startUnprepared hpc => exact hquiet hpc rfl rfl rfl rfl rfl rfl (fun _ => rfl) rfl
  | @startThreadless config i b hpc checked =>
      obtain ⟨-, -, hstop⟩ := (hs.dormant checked).halted
      refine hquiet hpc rfl rfl rfl rfl rfl rfl (setRuntime_congr standing ?_) rfl
      exact Prod.ext rfl (Prod.ext rfl hstop.symm)
  | startRepeated hpc checked hprepared hstarted =>
      exact absurd ((hs.dormant checked).not_started.symm.trans hstarted) (by simp)
  | @started config i b hpc checked =>
      refine hs.started checked.state checked.lifecycle rfl rfl rfl rfl ?_ fun j hj =>
        Process.setRuntime_runtimes_of_ne _ hj
      exact setRuntime_self (p := Serving) ⟨rfl, rfl, rfl⟩
  | flushBegin hpc => exact hquiet hpc rfl rfl rfl rfl rfl rfl (fun _ => rfl) rfl
  | prewarm hpc => exact hquiet hpc rfl rfl rfl rfl rfl rfl (fun _ => rfl) rfl
  | countFlusher hpc => exact hquiet hpc rfl rfl rfl rfl rfl rfl (setRuntime_congr standing rfl) rfl
  | uncountFlusher hpc =>
      rcases hpc with hpc | hpc
      · exact hquiet hpc rfl rfl rfl rfl rfl rfl (setRuntime_congr standing rfl) rfl
      · exact hquiet hpc rfl rfl rfl rfl rfl rfl (setRuntime_congr standing rfl) rfl
  | requestFlush hpc => exact hquiet hpc rfl rfl rfl rfl rfl rfl (setRuntime_congr standing rfl) rfl
  | destroyNone hpc _ hstate => exact hs.destroyNone hpc hstate
  | destroy hpc hlifecycle hstate => exact hs.destroy hpc hlifecycle hstate
  | @requestStop final i hpc =>
      have hbefore : (s.pc t).destroys? = some i := by rw [hpc]; rfl
      have hserving := (hs.destroyer t i hbefore).2.2
      rw [hpc] at hserving
      obtain ⟨hloop, hstarted, -⟩ := hserving
      refine hs.advance hbefore rfl rfl rfl
        (fun j hj => Process.setRuntime_runtimes_of_ne _ hj) rfl rfl ?_ (by rw [hpc]; rfl)
      refine setRuntime_self (p := Stopping) ⟨fun hconsumer => ?_, hstarted, rfl⟩
      rw [show (s.runtimes i).consumer = .notStarted from hconsumer] at hloop
      contradiction
  | @join final i hpc hended =>
      have hbefore : (s.pc t).destroys? = some i := by rw [hpc]; rfl
      refine hs.advance hbefore rfl rfl rfl
        (fun j hj => Process.setRuntime_runtimes_of_ne _ hj) rfl rfl ?_ (by rw [hpc]; rfl)
      exact setRuntime_self (p := Halted) ⟨.inr hended, rfl, rfl⟩
  | @resetSinks final i hpc =>
      have hbefore : (s.pc t).destroys? = some i := by rw [hpc]; rfl
      have hhalted := (hs.destroyer t i hbefore).2.2
      rw [hpc] at hhalted
      refine hs.advance hbefore rfl rfl rfl
        (fun j hj => Process.setRuntime_runtimes_of_ne _ hj) rfl rfl ?_ (by rw [hpc]; rfl)
      have hstanding : ∀ j, ((resetSinks s i).runtimes j).standing = (s.runtimes j).standing :=
        setRuntime_congr standing rfl
      exact Halted.congr hhalted (hstanding i)
  | finishDestroy hpc => exact hs.finishDestroy hpc

/-- A runtime runs because it did, or because it is being started. -/
theorem ThreadEffect.running (hs : LifecycleSound s) (h : ThreadEffect s t answers s') {i : ℕ}
    (hlifecycle : s'.lifecycle = .running) (hstate : s'.state = some i) :
    s.lifecycle = .running ∧ s.state = some i ∨ ∃ b, StartChecked s i b := by
  cases h with
  | startRepeated _ checked | started _ checked =>
      obtain rfl := Option.some.inj (checked.state.symm.trans hstate)
      exact .inr ⟨_, checked⟩
  | @destroyNone final hpc | @finishDestroy final _ hpc =>
      have hfinal := hs.final t final (by rw [hpc]; rfl)
      rw [show final = .running from hlifecycle] at hfinal
      simp at hfinal
  | destroy => contradiction
  | _ => exact .inl ⟨hlifecycle, hstate⟩

/-- Only the consumer of the current runtime moves. -/
theorem LifecycleSound.consumer {i completed : ℕ} {phase : ConsumerPhase} (hs : LifecycleSound s)
    (hmove : ConsumerMove (s.runtimes i) (s.runtimes i).consumer phase completed) :
    LifecycleSound (s.setRuntime i { s.runtimes i with
      consumer := phase
      flushCompleted := completed }) := by
  have hhalted : ¬ (s.runtimes i).Halted := fun h => h.not_consumer hmove
  have hothers : ∀ j, j ≠ i → (s.setRuntime i { s.runtimes i with
      consumer := phase, flushCompleted := completed }).runtimes j = s.runtimes j :=
    fun j hj => Process.setRuntime_runtimes_of_ne _ hj
  have hself : (s.setRuntime i { s.runtimes i with
      consumer := phase, flushCompleted := completed }).runtimes i =
      { s.runtimes i with consumer := phase, flushCompleted := completed } :=
    Process.setRuntime_runtimes_self _
  exact
    { born := hs.born
      uninitialized := hs.uninitialized
      configuring := fun hl => by
        obtain ⟨j, hj, hdormant⟩ := hs.configuring hl
        refine ⟨j, hj, ?_⟩
        by_cases hji : j = i
        · subst hji
          exact absurd hdormant.halted hhalted
        · rwa [hothers j hji]
      running := fun hl => by
        obtain ⟨j, hj, hserving⟩ := hs.running hl
        refine ⟨j, hj, ?_⟩
        by_cases hji : j = i
        · subst hji
          rw [hself]
          exact hserving.consumer hmove
        · rwa [hothers j hji]
      shuttingDown := hs.shuttingDown
      destroyer := fun t' j hj => by
        obtain ⟨hdown, hstate, hallows⟩ := hs.destroyer t' j hj
        refine ⟨hdown, hstate, ?_⟩
        by_cases hji : j = i
        · subst hji
          rw [hself]
          change (s.pc t').Allows _
          cases hpc : s.pc t' with
          | awaitFlushers =>
              rw [hpc] at hallows
              exact .inl ((Or.resolve_right hallows hhalted).consumer hmove)
          | requestStop =>
              rw [hpc] at hallows
              exact Serving.consumer hallows hmove
          | join =>
              rw [hpc] at hallows
              exact Stopping.consumer hallows hmove
          | resetSinks =>
              rw [hpc] at hallows
              exact absurd hallows hhalted
          | finishDestroy =>
              rw [hpc] at hallows
              exact absurd hallows hhalted
          | _ => trivial
        · rw [hothers j hji]
          exact hallows
      unique := hs.unique
      final := hs.final
      halted := fun j hj => by
        have hold := hs.halted j hj
        by_cases hji : j = i
        · subst hji
          exact absurd hold hhalted
        · rwa [hothers j hji] }

theorem lifecycleSound_of_visited {ok : Process → ℕ → Answers → Prop} (h : Visited ok s) :
    LifecycleSound s := by
  induction h with
  | initial => exact lifecycleSound_initial
  | call _ hidle hentry ih => exact ih.call hidle hentry
  | prelude _ hprelude ih => exact ih.prelude hprelude
  | thread _ _ heffect ih => exact ih.thread heffect
  | consumer _ hmove ih => exact ih.consumer hmove

/-- Thread 1 registers a channel and starts the runtime. -/
def demoStart : List Action :=
  [.call 1 (.operate {} (.makeChannel {})), .thread 1 {}, .thread 1 {},
    .call 1 (.operate {} .start), .thread 1 {}, .thread 1 {}]

end Unlog.Control
