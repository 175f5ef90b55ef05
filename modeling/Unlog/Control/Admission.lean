import Unlog.Control.Lifecycle

/-! # Admission of flushers

`flush_backend` counts itself on a runtime and then reads the lifecycle; `destroy_runtime` writes
the lifecycle and then waits for the count. -/

namespace Unlog.Control

open RuntimeState

variable {s s' : Process} {t : ℕ} {answers : Answers} {ok : Process → ℕ → Answers → Prop}

/-- The runtime that a flusher has loaded. -/
def CallPc.flushes? : CallPc → Option ℕ
  | .flushAdmit i | .flushLifecycle i | .flushRefuse i | .flushRequest i | .flushWait i _
  | .flushLeave i => some i
  | _ => none

/-- The runtime in whose `active_flushers` a thread counts. -/
def CallPc.counted? : CallPc → Option ℕ
  | .flushLifecycle i | .flushRefuse i | .flushRequest i | .flushWait i _ | .flushLeave i => some i
  | _ => none

/-- The runtime that an admitted flusher needs an answer from. -/
def CallPc.awaits? : CallPc → Option ℕ
  | .flushRequest i | .flushWait i _ => some i
  | _ => none

/-- The runtime to which a lifecycle load may admit a flusher. -/
def CallPc.admits? : CallPc → Option ℕ
  | .flushLifecycle i => some i
  | _ => none

theorem CallPc.counted?_of_awaits? {pc : CallPc} {i : ℕ} (h : pc.awaits? = some i) :
    pc.counted? = some i := by
  cases pc <;> first | exact h | contradiction

theorem CallPc.flushes?_of_counted? {pc : CallPc} {i : ℕ} (h : pc.counted? = some i) :
    pc.flushes? = some i := by
  cases pc <;> first | exact h | contradiction

/-! ## The count -/

/-- `active_flushers` counts the threads between their addition to it and their subtraction. -/
def Counted (s : Process) (i : ℕ) : Prop :=
  ∃ flushers : Finset ℕ, (∀ t, t ∈ flushers ↔ (s.pc t).counted? = some i) ∧
    flushers.card = (s.runtimes i).activeFlushers

structure FlushersSound (s : Process) : Prop where
  born : ∀ t i, (s.pc t).flushes? = some i → i < s.runtimeCount
  counted : ∀ i, Counted s i

theorem Counted.none_of_zero {i : ℕ} (h : Counted s i) (hzero : (s.runtimes i).activeFlushers = 0)
    (t : ℕ) : (s.pc t).counted? ≠ some i := by
  obtain ⟨flushers, hmem, hcard⟩ := h
  intro ht
  rw [hzero, Finset.card_eq_zero] at hcard
  have := (hmem t).mpr ht
  simp [hcard] at this

/-- What a thread does to the counts. -/
inductive FlushEffect (s : Process) (t : ℕ) (s' : Process) : Prop
  | keep (hpc : (s'.pc t).counted? = (s.pc t).counted?)
      (h : ∀ i, (s'.runtimes i).activeFlushers = (s.runtimes i).activeFlushers)
  | enter {i : ℕ} (hold : (s.pc t).counted? = none) (hnew : (s'.pc t).counted? = some i)
      (h : (s'.runtimes i).activeFlushers = (s.runtimes i).activeFlushers + 1)
      (hothers : ∀ j, j ≠ i → (s'.runtimes j).activeFlushers = (s.runtimes j).activeFlushers)
  | leave {i : ℕ} (hold : (s.pc t).counted? = some i) (hnew : (s'.pc t).counted? = none)
      (h : (s'.runtimes i).activeFlushers = (s.runtimes i).activeFlushers - 1)
      (hothers : ∀ j, j ≠ i → (s'.runtimes j).activeFlushers = (s.runtimes j).activeFlushers)

theorem Move.counted? {pc next : CallPc} (h : Move s pc next) : next.counted? = pc.counted? := by
  cases h <;> rfl

theorem Return.counted? {pc : CallPc} {result : Result} (h : Return s pc result) :
    pc.counted? = none := by
  cases h with
  | threw error h => cases pc <;> first | rfl | contradiction
  | _ => rfl

theorem ThreadEffect.flushers (h : ThreadEffect s t answers s') : FlushEffect s t s' := by
  -- the pairs of program counters outside of `flush_backend`
  have hkeep : ∀ {old next : CallPc}, s.pc t = old → s'.pc = Function.update s.pc t next →
      next.counted? = old.counted? →
      (∀ i, (s'.runtimes i).activeFlushers = (s.runtimes i).activeFlushers) →
      FlushEffect s t s' := by
    intro old next hpc hpc' hcounted hruntimes
    refine .keep ?_ hruntimes
    rw [hpc', Function.update_self, hpc, hcounted]
  cases h with
  | move hmove => exact hkeep rfl rfl hmove.counted? fun _ => rfl
  | «return» hreturn => exact hkeep rfl rfl hreturn.counted?.symm fun _ => rfl
  | countFlusher hpc =>
      refine .enter (by rw [hpc]; rfl) (by rw [Process.setPc_pc_self]; rfl) ?_ fun j hj => ?_
      · exact congrArg RuntimeState.activeFlushers (Process.setRuntime_runtimes_self _)
      · exact congrArg RuntimeState.activeFlushers (Process.setRuntime_runtimes_of_ne _ hj)
  | @uncountFlusher i hpc =>
      have hold : (s.pc t).counted? = some i := by
        rcases hpc with hpc | hpc
        · rw [hpc]
          rfl
        · rw [hpc]
          rfl
      refine .leave hold (by rw [Process.finish_pc_self]; rfl) ?_ fun j hj => ?_
      · exact congrArg RuntimeState.activeFlushers (Process.setRuntime_runtimes_self _)
      · exact congrArg RuntimeState.activeFlushers (Process.setRuntime_runtimes_of_ne _ hj)
  | bind hpc => exact hkeep hpc rfl rfl (setRuntime_congr activeFlushers rfl)
  | emplace _ _ hpc => exact hkeep hpc rfl rfl (setRuntime_congr activeFlushers rfl)
  | pushSink hpc => exact hkeep hpc rfl rfl (setRuntime_congr activeFlushers rfl)
  | storeGlobal hpc => exact hkeep hpc rfl rfl (setRuntime_congr activeFlushers rfl)
  | queryLevel hpc => exact hkeep hpc rfl rfl fun _ => rfl
  | routeIgnored hpc => exact hkeep hpc rfl rfl fun _ => rfl
  | storeRoute hpc => exact hkeep hpc rfl rfl (setRuntime_congr activeFlushers rfl)
  | startUnprepared hpc => exact hkeep hpc rfl rfl fun _ => rfl
  | startThreadless hpc => exact hkeep hpc rfl rfl (setRuntime_congr activeFlushers rfl)
  | startRepeated hpc => exact hkeep hpc rfl rfl (setRuntime_congr activeFlushers rfl)
  | started hpc => exact hkeep hpc rfl rfl (setRuntime_congr activeFlushers rfl)
  | flushBegin hpc => exact hkeep hpc rfl rfl fun _ => rfl
  | prewarm hpc => exact hkeep hpc rfl rfl fun _ => rfl
  | requestFlush hpc => exact hkeep hpc rfl rfl (setRuntime_congr activeFlushers rfl)
  | destroyNone hpc => exact hkeep hpc rfl rfl fun _ => rfl
  | destroy hpc => exact hkeep hpc rfl rfl (setRuntime_congr activeFlushers rfl)
  | requestStop hpc => exact hkeep hpc rfl rfl (setRuntime_congr activeFlushers rfl)
  | join hpc => exact hkeep hpc rfl rfl (setRuntime_congr activeFlushers rfl)
  | resetSinks hpc => exact hkeep hpc rfl rfl (setRuntime_congr activeFlushers rfl)
  | finishDestroy hpc => exact hkeep hpc rfl rfl fun _ => rfl

theorem Counted.congr {i : ℕ} (h : Counted s i)
    (hpc : ∀ t, (s'.pc t).counted? = some i ↔ (s.pc t).counted? = some i)
    (hcount : (s'.runtimes i).activeFlushers = (s.runtimes i).activeFlushers) : Counted s' i := by
  obtain ⟨flushers, hmem, hcard⟩ := h
  exact ⟨flushers, fun t => (hmem t).trans (hpc t).symm, hcard.trans hcount.symm⟩

theorem Counted.thread (hs : ∀ i, Counted s i) (h : ThreadEffect s t answers s') (i : ℕ) :
    Counted s' i := by
  have hne : ∀ t', t' ≠ t → s'.pc t' = s.pc t' := fun t' => h.pc_of_ne
  cases h.flushers with
  | keep hpc hcount =>
      refine (hs i).congr (fun t' => ?_) (hcount i)
      by_cases ht : t' = t
      · rw [ht, hpc]
      · rw [hne t' ht]
  | @enter j hold hnew hcount hothers =>
      by_cases hij : i = j
      · subst hij
        obtain ⟨flushers, hmem, hcard⟩ := hs i
        have hnot : t ∉ flushers := by simp [hmem, hold]
        refine ⟨insert t flushers, fun t' => ?_, ?_⟩
        · by_cases ht : t' = t
          · simp [ht, hnew]
          · simp [ht, hmem, hne t' ht]
        · rw [Finset.card_insert_of_notMem hnot, hcard, hcount]
      · refine (hs i).congr (fun t' => ?_) (hothers i hij)
        by_cases ht : t' = t
        · simp [ht, hold, hnew, Ne.symm hij]
        · rw [hne t' ht]
  | @leave j hold hnew hcount hothers =>
      by_cases hij : i = j
      · subst hij
        obtain ⟨flushers, hmem, hcard⟩ := hs i
        refine ⟨flushers.erase t, fun t' => ?_, ?_⟩
        · by_cases ht : t' = t
          · simp [ht, hnew]
          · simp [ht, hmem, hne t' ht]
        · rw [Finset.card_erase_of_mem ((hmem t).mpr hold), hcard, hcount]
      · refine (hs i).congr (fun t' => ?_) (hothers i hij)
        by_cases ht : t' = t
        · simp [ht, hold, hnew, Ne.symm hij]
        · rw [hne t' ht]

theorem Next.flushes? {pc next : CallPc} (hnext : Next s pc next) {i : ℕ}
    (h : next.flushes? = some i) : pc.flushes? = some i ∨ s.state = some i := by
  cases hnext with
  | move hmove =>
      cases hmove with
      | allowed | refuse | answered => exact .inl h
      | _ => contradiction
  | flushBegin hstate => exact .inr (hstate.trans h)
  | countFlusher | requestFlush => exact .inl h
  | _ => contradiction

theorem flushersSound_of_visited (h : Visited ok s) : FlushersSound s := by
  induction h with
  | initial =>
      refine ⟨fun t i ht => by contradiction, fun i => ⟨∅, fun t => ?_, rfl⟩⟩
      simp [Process.initial, CallPc.counted?]
  | @call s t pc _ hidle hentry ih =>
      have hnone : pc.flushes? = none := by cases hentry <;> rfl
      have hnone' : pc.counted? = none := by cases hentry <;> rfl
      refine ⟨?_, fun i => (ih.counted i).congr ?_ rfl⟩
      · exact forall_pc (p := fun pc => ∀ i, pc.flushes? = some i → i < s.runtimeCount) (s := s) rfl
          (by simp [hnone]) fun t' _ => ih.born t'
      · intro t'
        by_cases ht : t' = t
        · rw [ht, Process.setPc_pc_self, hnone', hidle]
          rfl
        · rw [Process.setPc_pc_of_ne _ ht]
  | @prelude s m t answers hs hprelude ih =>
      cases hprelude with
      | none => exact ih
      | hook => exact ⟨ih.born, ih.counted⟩
      | create hpc hstate =>
          refine ⟨fun t' i ht => Nat.lt_succ_of_lt (ih.born t' i ht), fun i => ?_⟩
          by_cases hi : i = s.runtimeCount
          · subst hi
            refine ⟨∅, fun t' => ?_, congrArg RuntimeState.activeFlushers
              (Process.createState_runtimes_self _).symm⟩
            simp only [Finset.notMem_empty, false_iff]
            exact fun ht => absurd (ih.born t' _ (CallPc.flushes?_of_counted? ht)) (lt_irrefl _)
          · exact (ih.counted i).congr (fun _ => Iff.rfl)
              (congrArg RuntimeState.activeFlushers (Process.createState_runtimes_of_ne _ hi))
  | @thread s s' t answers hs _ heffect ih =>
      refine ⟨fun t' i ht' => ?_, Counted.thread ih.counted heffect⟩
      have hcount : s'.runtimeCount = s.runtimeCount := by cases heffect <;> rfl
      rw [hcount]
      by_cases ht : t' = t
      · subst ht
        rcases heffect.next_self.flushes? ht' with hold | hstate
        · exact ih.born t' i hold
        · exact (lifecycleSound_of_visited hs).born i hstate
      · rw [heffect.pc_of_ne ht] at ht'
        exact ih.born t' i ht'
  | consumer _ hmove ih =>
      refine ⟨ih.born, fun j => (ih.counted j).congr (fun _ => Iff.rfl) ?_⟩
      exact setRuntime_congr activeFlushers (by rfl) j

/-! ## Admitted flushers -/

/-- Whoever was admitted to a runtime finds its consumer serving, and nobody has found that
runtime without flushers since. -/
structure AdmissionSound (s : Process) : Prop where
  serving : ∀ t i, (s.pc t).awaits? = some i → (s.runtimes i).Serving
  closing : ∀ t t' i final, s.pc t = .requestStop i final → (s.pc t').awaits? ≠ some i

/-- Nobody but a destroying thread stops a consumer. -/
theorem ThreadEffect.serving (hs : LifecycleSound s) (h : ThreadEffect s t answers s') {i : ℕ}
    (hserving : (s.runtimes i).Serving) :
    (s'.runtimes i).Serving ∨ ∃ final, s.pc t = .requestStop i final := by
  have hkeep : (∀ j, (s'.runtimes j).standing = (s.runtimes j).standing) →
      (s'.runtimes i).Serving ∨ ∃ final, s.pc t = .requestStop i final :=
    fun hstanding => .inl (hserving.congr (hstanding i))
  -- a runtime that is being started does not serve yet
  have hstart : ∀ {j b}, StartChecked s j b → i ≠ j := by
    rintro j b checked rfl
    exact hserving.not_halted (hs.dormant checked).halted
  cases h with
  | bind | emplace | pushSink | storeGlobal | storeRoute | countFlusher | uncountFlusher
  | requestFlush | destroy | resetSinks | startRepeated =>
      exact hkeep (setRuntime_congr standing rfl)
  | startThreadless hpc checked | started hpc checked =>
      exact .inl (setRuntime_other (p := Serving) (hstart checked) hserving)
  | @requestStop final j hpc =>
      by_cases hij : i = j
      · exact .inr ⟨final, hij ▸ hpc⟩
      · exact .inl (setRuntime_other (p := Serving) hij hserving)
  | @join final j hpc hended =>
      have hij : i ≠ j := by
        rintro rfl
        have := hserving.1
        rw [hended] at this
        contradiction
      exact .inl (setRuntime_other (p := Serving) hij hserving)
  | _ => exact hkeep fun _ => rfl

theorem Next.awaits? {pc next : CallPc} (hnext : Next s pc next) {i : ℕ}
    (h : next.awaits? = some i) :
    pc.awaits? = some i ∨ pc = .flushLifecycle i ∧ s.lifecycle = .running := by
  cases hnext with
  | move hmove =>
      cases hmove with
      | allowed hrunning =>
          obtain rfl := Option.some.inj h
          exact .inr ⟨rfl, hrunning⟩
      | _ => contradiction
  | requestFlush => exact .inl h
  | _ => contradiction

theorem Next.requestStop_cases {pc : CallPc} {i : ℕ} {final : RuntimeLifecycle}
    (hnext : Next s pc (.requestStop i final)) :
    pc = .awaitFlushers i final ∧ (s.runtimes i).activeFlushers = 0 := by
  cases hnext with
  | move hmove =>
      cases hmove with
      | alone hnone => exact ⟨rfl, hnone⟩

/-- A lifecycle load that admits a flusher finds the runtime that its call loaded still
current. -/
def TimelyThread (s : Process) (t : ℕ) (_ : Answers) : Prop :=
  ∀ i ∈ (s.pc t).admits?, s.lifecycle = .running → s.state = some i

theorem AdmissionSound.thread (hs : AdmissionSound s) (hlifecycle : LifecycleSound s)
    (hflushers : FlushersSound s) (htimely : TimelyThread s t answers)
    (h : ThreadEffect s t answers s') : AdmissionSound s' where
  serving t' i ht' := by
    by_cases ht : t' = t
    · subst ht
      rcases h.next_self.awaits? ht' with hold | ⟨hpc, hrunning⟩
      · rcases h.serving hlifecycle (hs.serving t' i hold) with hserving | ⟨final, hpc⟩
        · exact hserving
        · rw [hpc] at hold
          contradiction
      · obtain ⟨j, hj, hserving⟩ := hlifecycle.running hrunning
        obtain rfl : i = j := Option.some.inj ((htimely i (by rw [hpc]; rfl) hrunning).symm.trans hj)
        rcases h.serving hlifecycle hserving with hserving | ⟨final, hpc'⟩
        · exact hserving
        · rw [hpc] at hpc'
          contradiction
    · rw [h.pc_of_ne ht] at ht'
      rcases h.serving hlifecycle (hs.serving t' i ht') with hserving | ⟨final, hpc⟩
      · exact hserving
      · exact absurd ht' (hs.closing t t' i final hpc)
  closing t₁ t₂ i final hpc hawaits := by
    by_cases h₁ : t₁ = t
    · subst h₁
      obtain ⟨-, hzero⟩ := (hpc ▸ h.next_self).requestStop_cases
      have hne : t₂ ≠ t₁ := by
        rintro rfl
        rw [hpc] at hawaits
        contradiction
      rw [h.pc_of_ne hne] at hawaits
      exact (hflushers.counted i).none_of_zero hzero t₂ (CallPc.counted?_of_awaits? hawaits)
    · rw [h.pc_of_ne h₁] at hpc
      by_cases h₂ : t₂ = t
      · subst h₂
        rcases h.next_self.awaits? hawaits with hold | ⟨-, hrunning⟩
        · exact hs.closing t₁ t₂ i final hpc hold
        · have hdown := (hlifecycle.destroyer t₁ i (by rw [hpc]; rfl)).1
          rw [hrunning] at hdown
          contradiction
      · rw [h.pc_of_ne h₂] at hawaits
        exact hs.closing t₁ t₂ i final hpc hawaits

theorem admissionSound_of_timely (h : Visited TimelyThread s) : AdmissionSound s := by
  induction h with
  | initial =>
      exact ⟨fun t i ht => by contradiction, fun t t' i final ht => by contradiction⟩
  | @call s t pc _ hidle hentry ih =>
      have hnone : pc.awaits? = none := by cases hentry <;> rfl
      have hnot : ∀ i final, pc ≠ .requestStop i final := by cases hentry <;> simp
      refine ⟨fun t' i ht' => ?_, fun t₁ t₂ i final hpc hawaits => ?_⟩
      · by_cases ht : t' = t
        · rw [ht, Process.setPc_pc_self, hnone] at ht'
          contradiction
        · rw [Process.setPc_pc_of_ne _ ht] at ht'
          exact ih.serving t' i ht'
      · by_cases h₁ : t₁ = t
        · rw [h₁, Process.setPc_pc_self] at hpc
          exact hnot i final hpc
        · rw [Process.setPc_pc_of_ne _ h₁] at hpc
          by_cases h₂ : t₂ = t
          · rw [h₂, Process.setPc_pc_self, hnone] at hawaits
            contradiction
          · rw [Process.setPc_pc_of_ne _ h₂] at hawaits
            exact ih.closing t₁ t₂ i final hpc hawaits
  | @prelude s m t answers hs hprelude ih =>
      cases hprelude with
      | none => exact ih
      | hook => exact ⟨ih.serving, ih.closing⟩
      | create hpc hstate =>
          refine ⟨fun t' i ht' => ?_, ih.closing⟩
          have hserving := ih.serving t' i ht'
          have hne : i ≠ s.runtimeCount := by
            rintro rfl
            refine hserving.not_halted ((lifecycleSound_of_visited hs).halted _ (.inl ?_))
            rw [hstate]
            simp
          exact setRuntime_other (p := Serving) hne hserving
  | thread hs htimely heffect ih =>
      exact ih.thread (lifecycleSound_of_visited hs) (flushersSound_of_visited hs) htimely heffect
  | @consumer s i completed phase hs hmove ih =>
      refine ⟨fun t' j ht' => ?_, ih.closing⟩
      have hserving := ih.serving t' j ht'
      by_cases hj : j = i
      · subst hj
        exact setRuntime_self (p := Serving) (hserving.consumer hmove)
      · rwa [Process.setRuntime_runtimes_of_ne _ hj]

/-! ## No flusher waits on a dead consumer -/

/-- The consumer that an admitted flusher waits for is in its loop, and nobody joins it. -/
def NoDeadConsumer (s : Process) : Prop :=
  ∀ t i, (s.pc t).awaits? = some i →
    (s.runtimes i).consumer.inLoop = true ∧ ∀ t' final, s.pc t' ≠ .join i final

/-- A lifecycle load that admits a flusher finds the runtime that its call loaded still
current. -/
def Timely (s : Process) : Action → Prop
  | .thread t _ => ∀ i ∈ (s.pc t).admits?, s.lifecycle = .running → s.state = some i
  | _ => True

instance (s : Process) : DecidablePred (Timely s)
  | .call _ _ => .isTrue trivial
  | .thread t _ => inferInstanceAs
      (Decidable (∀ i ∈ (s.pc t).admits?, s.lifecycle = .running → s.state = some i))
  | .consumer _ => .isTrue trivial

theorem noDeadConsumer_of_timely (h : process.ReachableWhere Timely s) : NoDeadConsumer s := by
  have hvisited : Visited TimelyThread s := by
    refine visited_of_reachableWhere (fun s t answers m htimely hprelude i hi => ?_) h
    -- this access takes no lock, so nothing precedes it
    have hnone : (s.pc t).locking = true → (s.pc t).admits? = none := by
      generalize s.pc t = pc
      cases pc <;> simp [CallPc.locking, CallPc.admits?]
    cases hprelude with
    | none => exact htimely i hi
    | hook hlocking | create hlocking =>
        have hi' : i ∈ (s.pc t).admits? := hi
        rw [hnone hlocking] at hi'
        contradiction
  intro t i ht
  have hserving := (admissionSound_of_timely hvisited).serving t i ht
  refine ⟨hserving.1, fun t' final hpc => ?_⟩
  have hallows := ((lifecycleSound_of_visited hvisited).destroyer t' i (by rw [hpc]; rfl)).2.2
  rw [hpc] at hallows
  exact absurd (hserving.2.2.symm.trans hallows.2.2) (by simp)

/-- An admission to a runtime that is no longer current waits on a dead consumer at once. -/
theorem not_noDeadConsumer_of_untimely {a : Action} (h : process.Reachable s)
    (ha : ¬ Timely s a) (hstep : process.step s a = some s') : ¬ NoDeadConsumer s' := by
  have hs : LifecycleSound s := lifecycleSound_of_visited (visited_of_reachable h)
  cases a with
  | call => exact absurd trivial ha
  | consumer => exact absurd trivial ha
  | thread t answers =>
      obtain ⟨i, hi, hrunning, hstate⟩ : ∃ i, (s.pc t).admits? = some i ∧
          s.lifecycle = .running ∧ s.state ≠ some i := by
        simpa [Timely] using ha
      have hpc : s.pc t = .flushLifecycle i := by
        generalize s.pc t = pc at hi
        cases pc <;> simp_all [CallPc.admits?]
      have hnext : s' = s.setPc t (.flushRequest i) := by
        simpa [process, step, threadStep, hpc, hrunning, eq_comm] using hstep
      subst hnext
      intro hdead
      have hloop : (s.runtimes i).consumer.inLoop = true :=
        (hdead t i (by rw [Process.setPc_pc_self]; rfl)).1
      rcases (hs.halted i (.inl hstate)).1 with hconsumer | hconsumer
      · rw [hconsumer] at hloop
        contradiction
      · rw [hconsumer] at hloop
        contradiction

/-- No flusher waits on a dead consumer in a run whose admissions are all timely, and one does
after an admission that is not. -/
theorem noDeadConsumer_iff_timely (h : process.Reachable s) :
    (process.ReachableWhere Timely s → NoDeadConsumer s) ∧
      ∀ a s', process.step s a = some s' → ¬ Timely s a → ¬ NoDeadConsumer s' :=
  ⟨noDeadConsumer_of_timely, fun _ _ hstep ha => not_noDeadConsumer_of_untimely h ha hstep⟩

/-- A flush of the running runtime, up to its wait. -/
def demoTimely : List Action :=
  demoStart ++ .call 0 (.operate {} .flush) :: List.replicate 5 (.thread 0 {})

theorem noDeadConsumer_waiting :
    ∃ s, process.Reachable s ∧ s.pc 0 = .flushWait 0 1 ∧ NoDeadConsumer s := by
  have hrun : (process.runWhere Timely Process.initial demoTimely).map (fun s => s.pc 0) =
      some (.flushWait 0 1) := by
    decide +kernel
  obtain ⟨s, hs, hpc⟩ := Option.map_eq_some_iff.mp hrun
  have hinitial : process.ReachableWhere Timely Process.initial := .initial rfl
  have htimely := hinitial.runWhere hs
  exact ⟨s, htimely.reachable, hpc, (noDeadConsumer_iff_timely htimely.reachable).1 htimely⟩

/-- Thread 1 shuts down the runtime that it started, the first one. -/
def demoReset : List Action :=
  List.flatten
    [[.call 1 .reset, .thread 1 {}, .thread 1 {}, .thread 1 {}],
      List.replicate 3 (.consumer 0),
      List.replicate 3 (.thread 1 {})]

/-- A flush loads the runtime, and goes on when that runtime was reset and another one runs. -/
def demoStale : List Action :=
  List.flatten
    [demoStart, [.call 0 (.operate {} .flush), .thread 0 {}, .thread 0 {}], demoReset, demoStart,
      [.thread 0 {}, .thread 0 {}, .thread 0 {}]]

theorem not_noDeadConsumer_stale :
    ∃ s, process.run Process.initial demoStale = some s ∧ s.lifecycle = .running ∧
      s.state = some 1 ∧ s.pc 0 = .flushWait 0 1 ∧ (s.runtimes 0).consumer = .ended ∧
      ¬ NoDeadConsumer s := by
  have hrun : (process.run Process.initial demoStale).map
      (fun s => (s.lifecycle, s.state, s.pc 0, (s.runtimes 0).consumer)) =
        some (.running, some 1, .flushWait 0 1, .ended) := by
    decide +kernel
  obtain ⟨s, hs, hfacts⟩ := Option.map_eq_some_iff.mp hrun
  simp only [Prod.mk.injEq] at hfacts
  obtain ⟨hlifecycle, hstate, hpc, hended⟩ := hfacts
  refine ⟨s, hs, hlifecycle, hstate, hpc, hended, fun hdead => ?_⟩
  have hloop := (hdead 0 0 (by rw [hpc]; rfl)).1
  rw [hended] at hloop
  contradiction

end Unlog.Control
