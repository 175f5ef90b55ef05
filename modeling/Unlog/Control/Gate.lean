import Unlog.Control.Levels

/-! # The gate of a log call

What `level()` is in every state, and what a call that found it open can rely on. -/

namespace Unlog.Control

open RuntimeState ProducerBackend

variable {s s' : Process} {t i b : ℕ} {answers : Answers}

/-! ## Producers -/

/-- A single-threaded channel that is not off has its producer. -/
structure ProducerSound (s : Process) : Prop where
  needed : ∀ handle ∈ s.handles, handle.policy.runtimeMode = .singleThreaded →
    (s.backends handle.backend).singleNeeded handle.policy.hugePages = true
  prepared : ∀ i b, s.state = some i → s.lifecycle = .running →
    (s.runtimes i).producerBackend = some b → (s.backends b).Prepared
  enabled : ∀ handle ∈ s.handles, handle.policy.runtimeMode = .singleThreaded →
    ∀ levels, (s.runtimes handle.runtime).levels[handle.route]? = some levels →
    levels.2 ≠ .off → (s.backends handle.backend).single handle.policy.hugePages = true
  producing : ∀ t handle, s.pc t = .produce handle true →
    handle.policy.runtimeMode = .singleThreaded →
    (s.backends handle.backend).single handle.policy.hugePages = true

/-- What a thread does to a backend. -/
theorem ThreadEffect.backend (h : ThreadEffect s t answers s') (hb : b < s.backendCount) :
    s'.backends b = s.backends b ∨
      (∃ mode hugePages, s'.backends b = (s.backends b).registerChannel mode hugePages) ∨
      s'.backends b = ((s.backends b).prepareStart answers).1 := by
  cases h with
  | bind => exact .inl (Process.setBackend_backends_of_ne _ hb.ne)
  | @emplace config i b' conf =>
      by_cases hbb : b = b'
      · subst hbb
        exact .inr (.inl ⟨_, _, Process.setBackend_backends_self _⟩)
      · exact .inl (Process.setBackend_backends_of_ne _ hbb)
  | @startUnprepared config i b' | @startThreadless config i b' | @startRepeated config i b'
  | @started config i b' =>
      by_cases hbb : b = b'
      · subst hbb
        exact .inr (.inr (Process.setBackend_backends_self _))
      · exact .inl (Process.setBackend_backends_of_ne _ hbb)
  | _ => exact .inl rfl

theorem ThreadEffect.single (h : ThreadEffect s t answers s') (hb : b < s.backendCount)
    {hugePages : Bool} (hsingle : (s.backends b).single hugePages = true) :
    (s'.backends b).single hugePages = true := by
  rcases h.backend hb with hsame | ⟨mode, huge, hregister⟩ | hprepare
  · rw [hsame]
    exact hsingle
  · rw [hregister, single_registerChannel]
    exact hsingle
  · rw [hprepare]
    exact single_prepareStart _ _ hsingle

theorem ThreadEffect.singleNeeded (h : ThreadEffect s t answers s') (hb : b < s.backendCount)
    {hugePages : Bool} (hneeded : (s.backends b).singleNeeded hugePages = true) :
    (s'.backends b).singleNeeded hugePages = true := by
  rcases h.backend hb with hsame | ⟨mode, huge, hregister⟩ | hprepare
  · rw [hsame]
    exact hneeded
  · rw [hregister, singleNeeded_registerChannel]
    exact .inl hneeded
  · rw [hprepare, singleNeeded_prepareStart]
    exact hneeded

theorem ThreadEffect.prepared (hlifecycle : LifecycleSound s) (hbinding : BindingSound s)
    (hs : ∀ i b, s.state = some i → s.lifecycle = .running →
      (s.runtimes i).producerBackend = some b → (s.backends b).Prepared)
    (h : ThreadEffect s t answers s') (hstate : s'.state = some i)
    (hrunning : s'.lifecycle = .running) (hb : (s'.runtimes i).producerBackend = some b) :
    (s'.backends b).Prepared := by
  have hkeep : s.state = some i → s.lifecycle = .running →
      (∀ j, (s'.runtimes j).producerBackend = (s.runtimes j).producerBackend) →
      s'.backends b = s.backends b → (s'.backends b).Prepared := by
    intro hstate hrunning hbackend hsame
    rw [hsame]
    exact hs i b hstate hrunning (hbackend i ▸ hb)
  have hstart : ∀ {j c}, StartChecked s j c → ((s.backends c).prepareStart answers).2 = true →
      s.state = some i → (s.runtimes i).producerBackend = some b →
      ((s.setBackend c ((s.backends c).prepareStart answers).1).backends b).Prepared := by
    intro j c checked hprepared hi hbackend
    obtain rfl : i = j := Option.some.inj (hi.symm.trans checked.state)
    obtain rfl : b = c := Option.some.inj (hbackend.symm.trans checked.backend)
    rw [Process.setBackend_backends_self]
    exact prepared_prepareStart _ _ hprepared
  have hbound : ∀ {r : RuntimeState} {m : ℕ}, r.producerBackend = (s.runtimes m).producerBackend →
      ((s.setRuntime m r).runtimes i).producerBackend = some b →
      (s.runtimes i).producerBackend = some b := by
    intro r m hr hb
    exact (setRuntime_congr producerBackend hr i).symm.trans hb
  cases h with
  | @bind config operation j hpc hj hnone =>
      obtain rfl : i = j := Option.some.inj (hstate.symm.trans hj)
      exact absurd hnone (hbinding.running i hrunning hstate)
  | emplace _ _ _ _ hconfiguring =>
      exact absurd (hconfiguring.symm.trans hrunning) (by simp)
  | startUnprepared _ checked | startThreadless _ checked =>
      exact absurd (checked.lifecycle.symm.trans hrunning) (by simp)
  | startRepeated _ checked hprepared | started _ checked hprepared =>
      exact hstart checked hprepared hstate (hbound (by rfl) hb)
  | @destroyNone final hpc | @finishDestroy final _ hpc =>
      have hfinal := hlifecycle.final t final (by rw [hpc]; rfl)
      rw [show final = .running from hrunning] at hfinal
      simp at hfinal
  | destroy => contradiction
  | pushSink | storeGlobal | storeRoute | countFlusher | uncountFlusher | requestFlush
  | requestStop | join | resetSinks =>
      exact hkeep hstate hrunning (setRuntime_congr producerBackend rfl) rfl
  | _ => exact hkeep hstate hrunning (fun _ => rfl) rfl

/-- The gate that a thread has just passed. -/
theorem ThreadEffect.passed (h : ThreadEffect s t answers s') {handle : Handle} {gated : Bool}
    (hpc : s'.pc t = .produce handle gated) :
    ∃ level route, s.pc t = .gate handle level ∧
      (s.runtimes handle.runtime).channels[handle.route]? = some route ∧
      levelEnabled level route.level = true := by
  have hnext := h.next_self
  rw [hpc] at hnext
  generalize s.pc t = old at hnext
  cases hnext with
  | move hmove =>
      cases hmove with
      | enabled hroute henabled => exact ⟨_, _, rfl, hroute, henabled⟩

/-- A channel was not off before, or the producers of its runtime are there now. -/
theorem ThreadEffect.enabled {k : ℕ} {levels : LogLevel × LogLevel} (hlifecycle : LifecycleSound s)
    (hbinding : BindingSound s)
    (hprepared : ∀ i b, s.state = some i → s.lifecycle = .running →
      (s.runtimes i).producerBackend = some b → (s.backends b).Prepared)
    (h : ThreadEffect s t answers s') (hk : (s'.runtimes i).levels[k]? = some levels)
    (hon : levels.2 ≠ .off) :
    (∃ old, (s.runtimes i).levels[k]? = some old ∧ old.2 ≠ .off) ∨
      ∃ b, (s'.runtimes i).producerBackend = some b ∧ (s'.backends b).Prepared := by
  have hkeep : (s'.runtimes i).leveling = (s.runtimes i).leveling →
      (∃ old, (s.runtimes i).levels[k]? = some old ∧ old.2 ≠ .off) ∨
        ∃ b, (s'.runtimes i).producerBackend = some b ∧ (s'.backends b).Prepared :=
    fun hlevels => .inl ⟨levels, levels_eq hlevels ▸ hk, hon⟩
  have hrun : s'.state = some i → s'.lifecycle = .running →
      ∃ b, (s'.runtimes i).producerBackend = some b ∧ (s'.backends b).Prepared := by
    intro hstate hrunning
    have hbound := (hbinding.thread hlifecycle h).running i hrunning hstate
    obtain ⟨b, hb⟩ := Option.ne_none_iff_exists'.mp hbound
    exact ⟨b, hb, h.prepared hlifecycle hbinding hprepared hstate hrunning hb⟩
  cases h.levels hlifecycle hbinding with
  | keep _ _ _ hlevels | ignored _ _ _ _ _ hlevels | finish _ _ _ _ hlevels =>
      exact hkeep (hlevels i)
  | @register j hcurrent _ _ _ _ hself hlevels =>
      by_cases hij : i = j
      · subst hij
        rw [(leveling_eq hself).2] at hk
        by_cases hlt : k < (s.runtimes i).levels.length
        · rw [List.getElem?_append_left hlt] at hk
          exact .inl ⟨levels, hk, hon⟩
        · rw [List.getElem?_append_right (Nat.le_of_not_lt hlt)] at hk
          have hnew := List.mem_of_getElem? hk
          rw [List.mem_singleton] at hnew
          rw [hnew] at hon
          contradiction
      · exact hkeep (hlevels i hij)
  | @global j level hcurrent hstate hlife _ hself hlevels =>
      by_cases hij : i = j
      · subst hij
        by_cases hrunning : s.lifecycle = .running
        · exact .inr (hrun (hstate.trans hcurrent) (hlife.trans hrunning))
        · rw [(leveling_eq hself).2, List.getElem?_map, Option.map_eq_some_iff] at hk
          obtain ⟨old, hold, rfl⟩ := hk
          rw [RouteState.store, if_neg hrunning] at hon
          exact .inl ⟨old, hold, hon⟩
      · exact hkeep (hlevels i hij)
  | @route j m level hcurrent hstate hlife _ hself hlevels =>
      by_cases hij : i = j
      · subst hij
        by_cases hrunning : s.lifecycle = .running
        · exact .inr (hrun (hstate.trans hcurrent) (hlife.trans hrunning))
        · rw [(leveling_eq hself).2] at hk
          by_cases hmk : m = k
          · subst hmk
            rw [List.getElem?_modify_eq] at hk
            obtain ⟨old, hold, rfl⟩ := Option.map_eq_some_iff.mp hk
            rw [RouteState.store, if_neg hrunning] at hon
            exact .inl ⟨old, hold, hon⟩
          · rw [List.getElem?_modify_ne _ _ hmk] at hk
            exact .inl ⟨levels, hk, hon⟩
      · exact hkeep (hlevels i hij)
  | @start j b checked hstate hlife _ _ hlevels =>
      by_cases hij : i = j
      · subst hij
        exact .inr (hrun (hstate.trans checked.state) hlife)
      · exact hkeep (hlevels i hij)
  | @threadless config j b _ checked hready _ hbackend _ _ _ _ hlevels =>
      by_cases hij : i = j
      · subst hij
        -- the thread is missing, but the producers have been made
        refine .inr ⟨b, (h.binding.binds ⟨checked.backend, rfl⟩).1, ?_⟩
        rw [hbackend]
        exact prepared_prepareStart _ _ hready
      · exact hkeep (hlevels i hij)
  | @silence j _ _ _ _ hself hlevels =>
      by_cases hij : i = j
      · subst hij
        rw [(leveling_eq hself).2, List.getElem?_map, Option.map_eq_some_iff] at hk
        obtain ⟨old, -, rfl⟩ := hk
        contradiction
      · exact hkeep (hlevels i hij)

/-- A handle that a thread's step returns names a new route. -/
theorem ThreadEffect.handle_fresh (h : ThreadEffect s t answers s') {handle : Handle}
    (hmem : handle ∈ s'.handles) : handle ∈ s.handles ∨
      (s.runtimes handle.runtime).levels[handle.route]? = none := by
  cases h with
  | @emplace config i b conf =>
      rcases List.mem_cons.mp hmem with rfl | hmem
      · refine .inr (List.getElem?_eq_none ?_)
        exact (levels_length _).le
      · exact .inl hmem
  | _ => exact .inl hmem

theorem ProducerSound.thread (hs : ProducerSound s) (hlifecycle : LifecycleSound s)
    (hbinding : BindingSound s) (h : ThreadEffect s t answers s') : ProducerSound s' := by
  have hborn : ∀ handle ∈ s.handles, handle.backend < s.backendCount := fun handle hmem =>
    (hbinding.bound _ _ (hbinding.handles handle hmem).binds.1).2.1
  have hneeded : ∀ handle ∈ s'.handles, handle.policy.runtimeMode = .singleThreaded →
      (s'.backends handle.backend).singleNeeded handle.policy.hugePages = true := by
    intro handle hmem hmode
    have hold : handle ∈ s.handles → (s'.backends handle.backend).singleNeeded
        handle.policy.hugePages = true := fun hold =>
      h.singleNeeded (hborn handle hold) (hs.needed handle hold hmode)
    cases h with
    | @emplace config i b conf =>
        rcases List.mem_cons.mp hmem with rfl | hmem
        · refine setBackend_self
            (p := fun backend => backend.singleNeeded conf.useHugePages = true) ?_
          exact (singleNeeded_registerChannel _ _ _ _).mpr (.inr ⟨hmode, rfl⟩)
        · exact hold hmem
    | _ => exact hold hmem
  refine ⟨hneeded, ?_, ?_, ?_⟩
  · intro i b hstate hrunning hb
    exact h.prepared hlifecycle hbinding hs.prepared hstate hrunning hb
  · intro handle hmem hmode levels hlevels hon
    rcases h.enabled hlifecycle hbinding hs.prepared hlevels hon with
      ⟨old, hold, holdOn⟩ | ⟨b, hb, hprepared⟩
    · rcases h.handle_fresh hmem with hmem | hfresh
      · exact h.single (hborn handle hmem) (hs.enabled handle hmem hmode old hold holdOn)
      · rw [hfresh] at hold
        contradiction
    · have hbinds := ((hbinding.thread hlifecycle h).handles handle hmem).binds
      obtain rfl : b = handle.backend := Option.some.inj (hb.symm.trans hbinds.1)
      exact hprepared _ (hneeded handle hmem hmode)
  · intro t' handle hpc hmode
    by_cases ht : t' = t
    · subst ht
      obtain ⟨level, route, hgate, hroute, henabled⟩ := h.passed hpc
      have hmem := hbinding.held t' handle (by rw [hgate]; rfl)
      have hlevels : (s.runtimes handle.runtime).levels[handle.route]? = some route.levels := by
        rw [RuntimeState.levels, List.getElem?_map, hroute]
        rfl
      refine h.single (hborn handle hmem) (hs.enabled handle hmem hmode _ hlevels ?_)
      intro hoff
      rw [show route.level = .off from hoff, levelEnabled_off] at henabled
      contradiction
    · rw [h.pc_of_ne ht] at hpc
      have hmem := hbinding.held t' handle (by rw [hpc]; rfl)
      exact h.single (hborn handle hmem) (hs.producing t' handle hpc hmode)

theorem producerSound_of_visited {ok : Process → ℕ → Answers → Prop} (h : Visited ok s) :
    ProducerSound s := by
  induction h with
  | initial =>
      refine ⟨fun handle hmem => ?_, fun i b hstate => ?_, fun handle hmem => ?_,
        fun t handle hpc => ?_⟩ <;> contradiction
  | @call s t pc _ hidle hentry ih =>
      refine ⟨ih.needed, ih.prepared, ih.enabled, fun t' handle hpc => ?_⟩
      by_cases ht : t' = t
      · rw [ht, Process.setPc_pc_self] at hpc
        cases hentry <;> simp at hpc
      · rw [Process.setPc_pc_of_ne _ ht] at hpc
        exact ih.producing t' handle hpc
  | @prelude s m t answers hs hprelude ih =>
      cases hprelude with
      | none => exact ih
      | hook => exact ⟨ih.needed, ih.prepared, ih.enabled, ih.producing⟩
      | create =>
          refine ⟨ih.needed, fun i b _ hrunning => by contradiction, ?_, ih.producing⟩
          intro handle hmem hmode levels hlevels
          have hbound := (bindingSound_of_visited hs).handles handle hmem
          have hborn := ((bindingSound_of_visited hs).bound _ _ hbound.binds.1).1
          refine ih.enabled handle hmem hmode levels ?_
          exact (congrArg (fun runtime => runtime.levels[handle.route]?)
            (Process.createState_runtimes_of_ne answers.anchors hborn.ne)).symm.trans hlevels
  | thread hs _ heffect ih =>
      exact ih.thread (lifecycleSound_of_visited hs) (bindingSound_of_visited hs) heffect
  | @consumer s i completed phase _ hmove ih =>
      refine ⟨ih.needed, fun j b hstate hrunning hb => ?_, ?_, ih.producing⟩
      · refine ih.prepared j b hstate hrunning ?_
        exact (setRuntime_congr producerBackend (by rfl) j).symm.trans hb
      · intro handle hmem hmode levels hlevels
        refine ih.enabled handle hmem hmode levels ?_
        exact (congrArg (fun levels => levels[handle.route]?)
          (setRuntime_congr RuntimeState.levels (by rfl) handle.runtime)).symm.trans hlevels

/-! ## The contract -/

/-- The thread that the step may have to create is created. -/
def Action.ThreadCreated : Action → Prop
  | .thread _ answers => answers.threadCreated = true
  | _ => True

instance : DecidablePred Action.ThreadCreated
  | .call _ _ => .isTrue trivial
  | .thread _ answers => inferInstanceAs (Decidable (answers.threadCreated = true))
  | .consumer _ => .isTrue trivial

structure LevelContract (s : Process) : Prop where
  running : ∀ i, s.state = some i → s.lifecycle = .running → ∀ k route,
    (s.runtimes i).channels[k]? = some route → lastSetting s.settings i k = some route.level
  silent : ∀ i, s.lifecycle ≠ .running ∨ s.state ≠ some i →
    ∀ route ∈ (s.runtimes i).channels, route.level = .off
  /-- A retired runtime is retired for ever. -/
  retired : ∀ i < s.runtimeCount, s.state ≠ some i → ∀ actions s',
    (∀ a ∈ actions, a.ThreadCreated) → process.run s actions = some s' →
    ∀ route ∈ (s'.runtimes i).channels, route.level = .off
  producer : ∀ t handle, s.pc t = .produce handle true →
    handle.policy.runtimeMode = .singleThreaded →
    (s.backends handle.backend).single handle.policy.hugePages = true

theorem careful_of_created (h : process.ReachableWhere (fun _ a => a.ThreadCreated) s) :
    Visited Careful s := by
  refine visited_of_reachableWhere (fun s t answers m hcreated _ => ?_) h
  intro config i b _ _ _ hthread
  rw [show answers.threadCreated = true from hcreated] at hthread
  contradiction

theorem silent_of_created (h : process.ReachableWhere (fun _ a => a.ThreadCreated) s)
    (hi : s.lifecycle ≠ .running ∨ s.state ≠ some i) {route : RouteState}
    (hroute : route ∈ (s.runtimes i).channels) : route.level = .off := by
  refine (levelSound_of_visited (careful_of_created h)).silent i ?_ route.levels
    (List.mem_map_of_mem hroute)
  rcases hi with hlifecycle | hstate
  · exact fun hl => absurd hl hlifecycle
  · exact fun _ => hstate

/-- The state pointer never goes back to a runtime that it has left. -/
theorem retired_run {actions : List Action} (h : process.Reachable s) (hlt : i < s.runtimeCount)
    (hstate : s.state ≠ some i) (hrun : process.run s actions = some s') : s'.state ≠ some i := by
  refine (run_induct (P := fun s => i < s.runtimeCount ∧ s.state ≠ some i) ?_ ?_ ?_ ?_
    (fun _ _ _ => trivial) (visited_of_reachable h) ⟨hlt, hstate⟩ hrun).2
  · exact fun _ _ _ hs _ => hs
  · intro s t answers m _ hs hprelude
    cases hprelude with
    | none | hook => exact hs
    | create =>
        refine ⟨Nat.lt_succ_of_lt hs.1, fun hi => ?_⟩
        exact hs.1.ne' (Option.some.inj hi)
  · intro s t answers s' _ hs heffect
    refine ⟨heffect.runtimeCount_eq ▸ hs.1, fun hi => ?_⟩
    have hkeep : s'.state = s.state ∨ s'.state = none := by
      cases heffect with
      | @finishDestroy final =>
          by_cases hfinal : final = .uninitialized
          · exact .inr (if_pos hfinal)
          · exact .inl (if_neg hfinal)
      | _ => exact .inl rfl
    rcases hkeep with hsame | hnone
    · exact hs.2 (hsame.symm.trans hi)
    · rw [hnone] at hi
      contradiction
  · exact fun _ _ _ _ _ hs _ => hs

theorem levelContract_of_created (h : process.ReachableWhere (fun _ a => a.ThreadCreated) s) :
    LevelContract s := by
  have hlevel := levelSound_of_visited (careful_of_created h)
  refine ⟨fun i hstate hrunning k route hroute => ?_, fun i hi route => silent_of_created h hi,
    fun i hlt hstate actions s' hcreated hrun route hroute => ?_,
    (producerSound_of_visited (careful_of_created h)).producing⟩
  · have hlevels : (s.runtimes i).levels[k]? = some route.levels := by
      rw [RuntimeState.levels, List.getElem?_map, hroute]
      rfl
    rw [hlevel.configured i hstate k route.levels hlevels,
      ← hlevel.running i hstate hrunning route.levels (List.mem_of_getElem? hlevels)]
    rfl
  · have hreach : process.ReachableWhere (fun _ a => a.ThreadCreated) s' :=
      h.run (I := fun _ => True) hrun trivial (fun _ _ => hcreated) fun _ _ _ _ _ _ => trivial
    exact silent_of_created hreach (.inr (retired_run h.reachable hlt hstate hrun)) hroute

/-- A level set before the start and one set after it. -/
def demoLevels : List Action :=
  List.flatten
    [[.call 1 (.operate {} (.setGlobalLevel .debug)), .thread 1 {}, .thread 1 {}], demoStart,
      [.call 1 (.setLevel ⟨{}, channelPolicyFor {}, 0, 0, 0⟩ .warn), .thread 1 {},
        .call 2 (.log ⟨{}, channelPolicyFor {}, 0, 0, 0⟩ .err), .thread 2 {}]]

theorem levelContract_warn :
    ∃ s, process.run Process.initial demoLevels = some s ∧ s.lifecycle = .running ∧
      s.settings = [.route 0 0 .warn, .registered 0 0 .debug, .global 0 .debug] ∧
      (s.runtimes 0).channels.map RouteState.level = [.warn] ∧
      s.pc 2 = .produce ⟨{}, channelPolicyFor {}, 0, 0, 0⟩ true ∧ LevelContract s := by
  have hrun : (process.run Process.initial demoLevels).map (fun s =>
      (s.lifecycle, s.settings, (s.runtimes 0).channels.map RouteState.level, s.pc 2)) =
        some (.running, [.route 0 0 .warn, .registered 0 0 .debug, .global 0 .debug], [.warn],
          .produce ⟨{}, channelPolicyFor {}, 0, 0, 0⟩ true) := by
    decide +kernel
  obtain ⟨s, hs, hfacts⟩ := Option.map_eq_some_iff.mp hrun
  simp only [Prod.mk.injEq] at hfacts
  obtain ⟨hlifecycle, hsettings, hlevels, hpc⟩ := hfacts
  have hinitial : process.ReachableWhere (fun _ a => a.ThreadCreated) Process.initial :=
    .initial rfl
  refine ⟨s, hs, hlifecycle, hsettings, hlevels, hpc, levelContract_of_created ?_⟩
  have hcreated : ∀ a ∈ demoLevels, a.ThreadCreated := by decide +kernel
  exact hinitial.run (I := fun _ => True) hs trivial (fun _ _ => hcreated)
    fun _ _ _ _ _ _ => trivial

end Unlog.Control
