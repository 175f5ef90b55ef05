import Unlog.Control.Binding

/-! # Levels

The two level fields of a route against the history of what its owner asked for. -/

namespace Unlog

namespace RouteState

/-- The configured level and the one that log calls read. -/
def levels (route : RouteState) : LogLevel × LogLevel := (route.configuredLevel, route.level)

/-- What a level setter leaves. -/
def store (lifecycle : RuntimeLifecycle) (value : LogLevel) (levels : LogLevel × LogLevel) :
    LogLevel × LogLevel :=
  (value, if lifecycle = .running then value else levels.2)

end RouteState

namespace RuntimeState

def levels (runtime : RuntimeState) : List (LogLevel × LogLevel) :=
  runtime.channels.map RouteState.levels

/-- All that level setters read and write. -/
def leveling (runtime : RuntimeState) := (runtime.globalLevel, runtime.levels)

theorem levels_length (runtime : RuntimeState) :
    runtime.levels.length = runtime.channels.length :=
  List.length_map _

theorem levels_map {f : RouteState → RouteState} {g : LogLevel × LogLevel → LogLevel × LogLevel}
    (h : ∀ route, (f route).levels = g route.levels) (channels : List RouteState) :
    (channels.map f).map RouteState.levels = (channels.map RouteState.levels).map g := by
  simp [Function.comp_def, h]

end RuntimeState

end Unlog

namespace Unlog.Control

open RuntimeState

variable {s s' : Process} {t i j k b : ℕ} {answers : Answers}

theorem levels_setLevelOf (lifecycle : RuntimeLifecycle) (value : LogLevel) (route : RouteState) :
    (setLevelOf lifecycle value route).levels =
      RouteState.store lifecycle value route.levels := by
  unfold setLevelOf RouteState.store
  split <;> rfl

/-! ## History -/

/-- The level that a setting gives channel `k` of runtime `i`. -/
def Setting.level? (i k : ℕ) : Setting → Option LogLevel
  | .registered i' k' level | .route i' k' level => if i' = i ∧ k' = k then some level else none
  | .global i' level => if i' = i then some level else none

/-- The most recent setting that concerns channel `k` of runtime `i`. -/
def lastSetting (settings : List Setting) (i k : ℕ) : Option LogLevel :=
  settings.findSome? (Setting.level? i k)

def Setting.global? (i : ℕ) : Setting → Option LogLevel
  | .global i' level => if i' = i then some level else none
  | _ => none

/-- The global level of runtime `i`: the last one that was set. -/
def lastGlobal (settings : List Setting) (i : ℕ) : LogLevel :=
  (settings.findSome? (Setting.global? i)).getD .info

def Setting.runtime : Setting → ℕ
  | .registered i _ _ | .global i _ | .route i _ _ => i

theorem lastSetting_cons_other {setting : Setting} {settings : List Setting}
    (h : setting.level? i k = none) :
    lastSetting (setting :: settings) i k = lastSetting settings i k := by
  simp [lastSetting, h]

theorem lastSetting_cons_self {setting : Setting} {settings : List Setting} {level : LogLevel}
    (h : setting.level? i k = some level) :
    lastSetting (setting :: settings) i k = some level := by
  simp [lastSetting, h]

theorem level?_of_runtime_ne {setting : Setting} (h : setting.runtime ≠ i) :
    setting.level? i k = none := by
  cases setting <;> simp_all [Setting.level?, Setting.runtime]

theorem lastGlobal_cons_other {setting : Setting} {settings : List Setting}
    (h : setting.global? i = none) :
    lastGlobal (setting :: settings) i = lastGlobal settings i := by
  simp [lastGlobal, h]

theorem lastGlobal_of_runtime_ne {settings : List Setting}
    (h : ∀ setting ∈ settings, setting.runtime ≠ i) : lastGlobal settings i = .info := by
  have hnone : settings.findSome? (Setting.global? i) = none := by
    rw [List.findSome?_eq_none_iff]
    intro setting hmem
    have hne := h setting hmem
    cases setting <;> simp_all [Setting.global?, Setting.runtime]
  rw [lastGlobal, hnone]
  rfl

/-! ## Effects -/

/-- What a thread does to levels and to their history. -/
inductive LevelEffect (s : Process) (t : ℕ) (answers : Answers) (s' : Process) : Prop
  | keep (hstate : s'.state = s.state) (hlifecycle : s'.lifecycle = s.lifecycle)
      (hsettings : s'.settings = s.settings)
      (hlevels : ∀ j, (s'.runtimes j).leveling = (s.runtimes j).leveling)
  | register {i : ℕ} (hcurrent : s.state = some i) (hconfiguring : s.lifecycle = .configuring)
      (hstate : s'.state = s.state) (hlifecycle : s'.lifecycle = s.lifecycle)
      (hsettings : s'.settings = .registered i (s.runtimes i).levels.length
        (s.runtimes i).globalLevel :: s.settings)
      (hself : (s'.runtimes i).leveling = ((s.runtimes i).globalLevel,
        (s.runtimes i).levels ++ [((s.runtimes i).globalLevel, .off)]))
      (hlevels : ∀ j, j ≠ i → (s'.runtimes j).leveling = (s.runtimes j).leveling)
  | global {i : ℕ} {level : LogLevel} (hcurrent : s.state = some i)
      (hstate : s'.state = s.state) (hlifecycle : s'.lifecycle = s.lifecycle)
      (hsettings : s'.settings = .global i level :: s.settings)
      (hself : (s'.runtimes i).leveling =
        (level, (s.runtimes i).levels.map (RouteState.store s.lifecycle level)))
      (hlevels : ∀ j, j ≠ i → (s'.runtimes j).leveling = (s.runtimes j).leveling)
  | route {i k : ℕ} {level : LogLevel} (hcurrent : s.state = some i)
      (hstate : s'.state = s.state) (hlifecycle : s'.lifecycle = s.lifecycle)
      (hsettings : s'.settings = .route i k level :: s.settings)
      (hself : (s'.runtimes i).leveling = ((s.runtimes i).globalLevel,
        (s.runtimes i).levels.modify k (RouteState.store s.lifecycle level)))
      (hlevels : ∀ j, j ≠ i → (s'.runtimes j).leveling = (s.runtimes j).leveling)
  | ignored {i k : ℕ} {level : LogLevel} (hother : s.state ≠ some i)
      (hborn : i < s.runtimeCount) (hstate : s'.state = s.state)
      (hlifecycle : s'.lifecycle = s.lifecycle)
      (hsettings : s'.settings = .route i k level :: s.settings)
      (hlevels : ∀ j, (s'.runtimes j).leveling = (s.runtimes j).leveling)
  | start {i b : ℕ} (checked : StartChecked s i b) (hstate : s'.state = s.state)
      (hlifecycle : s'.lifecycle = .running) (hsettings : s'.settings = s.settings)
      (hself : (s'.runtimes i).leveling = ((s.runtimes i).globalLevel,
        (s.runtimes i).levels.map fun levels => (levels.1, levels.1)))
      (hlevels : ∀ j, j ≠ i → (s'.runtimes j).leveling = (s.runtimes j).leveling)
  | threadless {config : GlobalConfig} {i b : ℕ} (hpc : s.pc t = .perform config b .start)
      (checked : StartChecked s i b)
      (hprepared : ((s.backends b).prepareStart answers).2 = true)
      (hthread : answers.threadCreated = false)
      (hbackend : s'.backends b = ((s.backends b).prepareStart answers).1)
      (hstate : s'.state = s.state)
      (hlifecycle : s'.lifecycle = s.lifecycle) (hsettings : s'.settings = s.settings)
      (hself : (s'.runtimes i).leveling = ((s.runtimes i).globalLevel,
        (s.runtimes i).levels.map fun levels => (levels.1, levels.1)))
      (hlevels : ∀ j, j ≠ i → (s'.runtimes j).leveling = (s.runtimes j).leveling)
  | silence {i : ℕ} (hcurrent : s.state = some i) (hstate : s'.state = s.state)
      (hlifecycle : s'.lifecycle = .shuttingDown) (hsettings : s'.settings = s.settings)
      (hself : (s'.runtimes i).leveling = ((s.runtimes i).globalLevel,
        (s.runtimes i).levels.map fun levels => (levels.1, .off)))
      (hlevels : ∀ j, j ≠ i → (s'.runtimes j).leveling = (s.runtimes j).leveling)
  | finish (hbefore : s.lifecycle ≠ .running) (hafter : s'.lifecycle ≠ .running)
      (hstate : ∀ i, s'.state = some i → s.state = some i) (hsettings : s'.settings = s.settings)
      (hlevels : ∀ j, (s'.runtimes j).leveling = (s.runtimes j).leveling)

theorem ThreadEffect.levels (hlifecycle : LifecycleSound s) (hbinding : BindingSound s)
    (h : ThreadEffect s t answers s') : LevelEffect s t answers s' := by
  have hothers : ∀ {j runtime}, ∀ m, m ≠ j →
      ((s.setRuntime j runtime).runtimes m).leveling = (s.runtimes m).leveling :=
    fun m hm => congrArg leveling (Process.setRuntime_runtimes_of_ne _ hm)
  have hself : ∀ {j runtime} {value : LogLevel × List (LogLevel × LogLevel)},
      runtime.leveling = value → ((s.setRuntime j runtime).runtimes j).leveling = value :=
    fun h => setRuntime_self (p := fun r => r.leveling = _) h
  cases h with
  | @emplace config i b conf sink sinks hpc hstate hconfiguring =>
      refine .register hstate hconfiguring rfl rfl ?_ (hself ?_) hothers
      · rw [levels_length]
        rfl
      · simp [RuntimeState.emplaceChannel, leveling, RuntimeState.levels, RouteState.levels,
          RouteState.configureLevel]
  | storeGlobal hpc hstate =>
      refine .global hstate rfl rfl rfl (hself ?_) hothers
      exact congrArg (Prod.mk _) (levels_map (levels_setLevelOf _ _) _)
  | @routeIgnored handle level hpc hignored =>
      have hsound := hbinding.handles handle (hbinding.held t handle (by rw [hpc]; rfl))
      refine .ignored ?_ (hbinding.bound _ _ hsound.binds.1).1 rfl rfl rfl fun _ => rfl
      exact fun hcurrent => hignored _ hcurrent hsound.binds.1
  | @storeRoute handle level i hpc hstate hbackend =>
      have hsound := hbinding.handles handle (hbinding.held t handle (by rw [hpc]; rfl))
      obtain rfl := hbinding.unique hbackend hsound.binds.1
      refine .route hstate rfl rfl rfl (hself ?_) hothers
      exact congrArg (Prod.mk _) (map_modify (levels_setLevelOf _ _) _ _)
  | startThreadless hpc checked hprepared hstarted hthread =>
      refine .threadless hpc checked hprepared hthread (Process.setBackend_backends_self _) rfl rfl
        rfl (hself ?_) hothers
      exact congrArg (Prod.mk _) (levels_map (fun _ => rfl) _)
  | startRepeated hpc checked | started hpc checked =>
      refine .start checked rfl rfl rfl (hself ?_) hothers
      exact congrArg (Prod.mk _) (levels_map (fun _ => rfl) _)
  | destroy hpc hne hstate =>
      refine .silence hstate rfl rfl rfl (hself ?_) hothers
      exact congrArg (Prod.mk _) (levels_map (fun _ => rfl) _)
  | @destroyNone final hpc hne hstate =>
      have hfinal := hlifecycle.final t final (by rw [hpc]; rfl)
      refine .finish (fun hrunning => ?_) (fun hrunning => ?_) (fun _ h => h) rfl fun _ => rfl
      · obtain ⟨i, hi, -⟩ := hlifecycle.running hrunning
        exact absurd (hi.symm.trans hstate) (by simp)
      · rw [show final = .running from hrunning] at hfinal
        simp at hfinal
  | @finishDestroy final i hpc =>
      have hfinal := hlifecycle.final t final (by rw [hpc]; rfl)
      have hdown := (hlifecycle.destroyer t i (by rw [hpc]; rfl)).1
      refine .finish (by rw [hdown]; simp) (fun hrunning => ?_) (fun j hj => ?_) rfl fun _ => rfl
      · rw [show final = .running from hrunning] at hfinal
        simp at hfinal
      · simp only [Control.finishDestroy] at hj
        split at hj
        · contradiction
        · exact hj
  | resetSinks =>
      refine .keep rfl rfl rfl (setRuntime_congr leveling ?_)
      exact congrArg (Prod.mk _) ((levels_map (fun _ => rfl) _).trans (List.map_id _))
  | bind | pushSink | countFlusher | uncountFlusher | requestFlush | requestStop | join =>
      exact .keep rfl rfl rfl (setRuntime_congr leveling rfl)
  | _ => exact .keep rfl rfl rfl fun _ => rfl

/-! ## The invariant -/

structure LevelSound (s : Process) : Prop where
  born : ∀ setting ∈ s.settings, setting.runtime < s.runtimeCount
  global : ∀ i, s.state = some i → (s.runtimes i).globalLevel = lastGlobal s.settings i
  configured : ∀ i, s.state = some i → ∀ k levels, (s.runtimes i).levels[k]? = some levels →
    lastSetting s.settings i k = some levels.1
  running : ∀ i, s.state = some i → s.lifecycle = .running →
    ∀ levels ∈ (s.runtimes i).levels, levels.2 = levels.1
  silent : ∀ i, (s.lifecycle = .running → s.state ≠ some i) →
    ∀ levels ∈ (s.runtimes i).levels, levels.2 = .off

/-- Where the consumer thread cannot be created, every route already has its configured level. -/
def Careful (s : Process) (t : ℕ) (answers : Answers) : Prop :=
  ∀ config i b, s.pc t = .perform config b .start → StartChecked s i b →
    ((s.backends b).prepareStart answers).2 = true → answers.threadCreated = false →
    ∀ levels ∈ (s.runtimes i).levels, levels.1 = levels.2

theorem leveling_eq {runtime : RuntimeState} {value : LogLevel}
    {levels : List (LogLevel × LogLevel)} (h : runtime.leveling = (value, levels)) :
    runtime.globalLevel = value ∧ runtime.levels = levels := by
  simpa [leveling] using h

theorem levels_eq {runtime runtime' : RuntimeState} (h : runtime'.leveling = runtime.leveling) :
    runtime'.levels = runtime.levels :=
  congrArg Prod.snd h

/-- The settings grow by one that concerns another runtime, or by none. -/
theorem LevelSound.transport (hs : LevelSound s) (hstate : ∀ i, s'.state = some i → s.state = some i)
    (hlevels : ∀ i, (s'.runtimes i).leveling = (s.runtimes i).leveling)
    (hborn : ∀ setting ∈ s'.settings, setting.runtime < s'.runtimeCount)
    (hlast : ∀ i, s.state = some i → (∀ k, lastSetting s'.settings i k = lastSetting s.settings i k) ∧
      lastGlobal s'.settings i = lastGlobal s.settings i)
    (hrunning : s'.lifecycle = .running → s.lifecycle = .running)
    (hsilent : ∀ i, s'.lifecycle ≠ .running ∨ s'.state ≠ some i →
      s.lifecycle ≠ .running ∨ s.state ≠ some i) : LevelSound s' where
  born := hborn
  global i hi := by
    rw [(hlast i (hstate i hi)).2, (leveling_eq (hlevels i)).1]
    exact hs.global i (hstate i hi)
  configured i hi k levels hk := by
    rw [(hlast i (hstate i hi)).1]
    exact hs.configured i (hstate i hi) k levels (levels_eq (hlevels i) ▸ hk)
  running i hi hl levels hmem :=
    hs.running i (hstate i hi) (hrunning hl) levels (levels_eq (hlevels i) ▸ hmem)
  silent i hi levels hmem := by
    refine hs.silent i ?_ levels (levels_eq (hlevels i) ▸ hmem)
    rcases hsilent i (imp_iff_not_or.mp hi) with h | h
    · exact fun hl => absurd hl h
    · exact fun _ => h

/-- The settings of the current runtime `i` change, and its levels with them. -/
theorem LevelSound.change {i : ℕ} {setting : Setting} (hs : LevelSound s) (hi : s.state = some i)
    (hruntime : setting.runtime = i) (hstate : s'.state = s.state)
    (hlifecycle : s'.lifecycle = s.lifecycle) (hcount : s'.runtimeCount = s.runtimeCount)
    (hlt : i < s.runtimeCount) (hsettings : s'.settings = setting :: s.settings)
    (hlevels : ∀ j, j ≠ i → (s'.runtimes j).leveling = (s.runtimes j).leveling)
    (hglobal : (s'.runtimes i).globalLevel = lastGlobal (setting :: s.settings) i)
    (hconfigured : ∀ k levels, (s'.runtimes i).levels[k]? = some levels →
      lastSetting (setting :: s.settings) i k = some levels.1)
    (hrunning : s.lifecycle = .running → ∀ levels ∈ (s'.runtimes i).levels, levels.2 = levels.1)
    (hsilent : s.lifecycle ≠ .running → ∀ levels ∈ (s'.runtimes i).levels, levels.2 = .off) :
    LevelSound s' := by
  have honly : ∀ j, s'.state = some j → j = i := fun j hj =>
    Option.some.inj (hj.symm.trans (hstate.trans hi))
  exact
    { born := fun other hmem => by
        rw [hsettings] at hmem
        rw [hcount]
        rcases List.mem_cons.mp hmem with rfl | hmem
        · exact hruntime ▸ hlt
        · exact hs.born other hmem
      global := fun j hj => by
        obtain rfl := honly j hj
        rw [hsettings]
        exact hglobal
      configured := fun j hj k levels hk => by
        obtain rfl := honly j hj
        rw [hsettings]
        exact hconfigured k levels hk
      running := fun j hj hl levels hmem => by
        obtain rfl := honly j hj
        exact hrunning (hlifecycle ▸ hl) levels hmem
      silent := fun j hj levels hmem => by
        rw [hlifecycle, hstate] at hj
        by_cases hji : j = i
        · subst hji
          exact hsilent (fun hl => hj hl hi) levels hmem
        · exact hs.silent j hj levels (levels_eq (hlevels j hji) ▸ hmem) }

/-- The running levels of the current runtime `i` change, and nothing is asked for. -/
theorem LevelSound.switch {i : ℕ} {f : LogLevel × LogLevel → LogLevel × LogLevel}
    (hs : LevelSound s) (hi : s.state = some i)
    (hself : (s'.runtimes i).leveling = ((s.runtimes i).globalLevel, (s.runtimes i).levels.map f))
    (hf : ∀ levels, (f levels).1 = levels.1)
    (hstate : s'.state = s.state) (hcount : s'.runtimeCount = s.runtimeCount)
    (hsettings : s'.settings = s.settings)
    (hlevels : ∀ j, j ≠ i → (s'.runtimes j).leveling = (s.runtimes j).leveling)
    (hrunning : s'.lifecycle = .running → ∀ levels ∈ (s.runtimes i).levels,
      (f levels).2 = levels.1)
    (hsilent : s'.lifecycle ≠ .running → ∀ levels ∈ (s.runtimes i).levels, (f levels).2 = .off) :
    LevelSound s' := by
  obtain ⟨hglobal, hmap⟩ := leveling_eq hself
  have honly : ∀ j, s'.state = some j → j = i := fun j hj =>
    Option.some.inj (hj.symm.trans (hstate.trans hi))
  exact
    { born := fun setting hmem => by
        rw [hcount]
        exact hs.born setting (hsettings ▸ hmem)
      global := fun j hj => by
        obtain rfl := honly j hj
        rw [hsettings, hglobal]
        exact hs.global j hi
      configured := fun j hj k levels hk => by
        obtain rfl := honly j hj
        rw [hmap, List.getElem?_map, Option.map_eq_some_iff] at hk
        obtain ⟨old, hold, rfl⟩ := hk
        rw [hsettings, hf]
        exact hs.configured j hi k old hold
      running := fun j hj hl levels hmem => by
        obtain rfl := honly j hj
        rw [hmap, List.mem_map] at hmem
        obtain ⟨old, hold, rfl⟩ := hmem
        rw [hf]
        exact hrunning hl old hold
      silent := fun j hj levels hmem => by
        by_cases hji : j = i
        · subst hji
          rw [hmap, List.mem_map] at hmem
          obtain ⟨old, hold, rfl⟩ := hmem
          exact hsilent (fun hl => hj hl (hstate.trans hi)) old hold
        · refine hs.silent j (fun _ h => ?_) levels (levels_eq (hlevels j hji) ▸ hmem)
          exact hji (Option.some.inj (h.symm.trans hi)) }

theorem mem_modify {α : Type*} {f : α → α} {l : List α} {k : ℕ} {x : α} (h : x ∈ l.modify k f) :
    x ∈ l ∨ ∃ y ∈ l, x = f y := by
  obtain ⟨m, hm⟩ := List.mem_iff_getElem?.mp h
  by_cases hkm : k = m
  · subst hkm
    rw [List.getElem?_modify_eq] at hm
    obtain ⟨y, hy, rfl⟩ := Option.map_eq_some_iff.mp hm
    exact .inr ⟨y, List.mem_of_getElem? hy, rfl⟩
  · rw [List.getElem?_modify_ne _ _ hkm] at hm
    exact .inl (List.mem_of_getElem? hm)

theorem LevelSound.thread (hs : LevelSound s) (hlifecycle : LifecycleSound s)
    (hbinding : BindingSound s) (hcareful : Careful s t answers)
    (h : ThreadEffect s t answers s') : LevelSound s' := by
  have hcount := h.runtimeCount_eq
  cases h.levels hlifecycle hbinding with
  | keep hstate hlife hsettings hlevels =>
      refine hs.transport (fun i hi => hstate ▸ hi) hlevels ?_ ?_ (fun hl => hlife ▸ hl) ?_
      · rw [hsettings, hcount]
        exact hs.born
      · rw [hsettings]
        exact fun _ _ => ⟨fun _ => rfl, rfl⟩
      · rw [hstate, hlife]
        exact fun _ h => h
  | @register i hi hconfiguring hstate hlife hsettings hself hlevels =>
      obtain ⟨hglobal, hlist⟩ := leveling_eq hself
      refine hs.change hi rfl hstate hlife hcount (hlifecycle.born i hi) hsettings hlevels ?_ ?_ ?_ ?_
      · rw [hglobal, lastGlobal_cons_other rfl]
        exact hs.global i hi
      · intro k levels hk
        rw [hlist] at hk
        by_cases hlt : k < (s.runtimes i).levels.length
        · rw [List.getElem?_append_left hlt] at hk
          rw [lastSetting_cons_other (by simp [Setting.level?, hlt.ne'])]
          exact hs.configured i hi k levels hk
        · have hk' : k = (s.runtimes i).levels.length := by
            have hbound := (List.getElem?_eq_some_iff.mp hk).1
            rw [List.length_append, List.length_singleton] at hbound
            omega
          subst hk'
          rw [List.getElem?_concat_length] at hk
          obtain rfl := Option.some.inj hk
          exact lastSetting_cons_self (by simp [Setting.level?])
      · rw [hconfiguring]
        exact fun h => by contradiction
      · intro hne levels hmem
        rw [hlist, List.mem_append, List.mem_singleton] at hmem
        rcases hmem with hmem | rfl
        · exact hs.silent i (fun hl => absurd hl hne) levels hmem
        · rfl
  | @global i level hi hstate hlife hsettings hself hlevels =>
      obtain ⟨hglobal, hlist⟩ := leveling_eq hself
      refine hs.change hi rfl hstate hlife hcount (hlifecycle.born i hi) hsettings hlevels ?_ ?_ ?_ ?_
      · rw [hglobal]
        simp [lastGlobal, Setting.global?]
      · intro k levels hk
        rw [hlist, List.getElem?_map, Option.map_eq_some_iff] at hk
        obtain ⟨old, hold, rfl⟩ := hk
        exact lastSetting_cons_self (by simp [Setting.level?, RouteState.store])
      · intro hl levels hmem
        rw [hlist, List.mem_map] at hmem
        obtain ⟨old, hold, rfl⟩ := hmem
        exact if_pos hl
      · intro hne levels hmem
        rw [hlist, List.mem_map] at hmem
        obtain ⟨old, hold, rfl⟩ := hmem
        exact (if_neg hne).trans (hs.silent i (fun hl => absurd hl hne) old hold)
  | @route i k level hi hstate hlife hsettings hself hlevels =>
      obtain ⟨hglobal, hlist⟩ := leveling_eq hself
      refine hs.change hi rfl hstate hlife hcount (hlifecycle.born i hi) hsettings hlevels ?_ ?_ ?_ ?_
      · rw [hglobal, lastGlobal_cons_other rfl]
        exact hs.global i hi
      · intro m levels hm
        rw [hlist] at hm
        by_cases hkm : k = m
        · subst hkm
          rw [List.getElem?_modify_eq] at hm
          obtain ⟨old, hold, rfl⟩ := Option.map_eq_some_iff.mp hm
          exact lastSetting_cons_self (by simp [Setting.level?, RouteState.store])
        · rw [List.getElem?_modify_ne _ _ hkm] at hm
          rw [lastSetting_cons_other (by simp [Setting.level?, hkm])]
          exact hs.configured i hi m levels hm
      · intro hl levels hmem
        rcases mem_modify (hlist ▸ hmem) with hold | ⟨old, -, rfl⟩
        · exact hs.running i hi hl levels hold
        · exact if_pos hl
      · intro hne levels hmem
        rcases mem_modify (hlist ▸ hmem) with hold | ⟨old, hold, rfl⟩
        · exact hs.silent i (fun hl => absurd hl hne) levels hold
        · exact (if_neg hne).trans (hs.silent i (fun hl => absurd hl hne) old hold)
  | @ignored i k level hother hborn hstate hlife hsettings hlevels =>
      refine hs.transport (fun j hj => hstate ▸ hj) hlevels ?_ ?_ (fun hl => hlife ▸ hl) ?_
      · rw [hsettings, hcount]
        intro setting hmem
        rcases List.mem_cons.mp hmem with rfl | hmem
        · exact hborn
        · exact hs.born setting hmem
      · intro j hj
        have hne : i ≠ j := by
          rintro rfl
          exact hother hj
        rw [hsettings]
        exact ⟨fun m => lastSetting_cons_other (level?_of_runtime_ne hne),
          lastGlobal_cons_other rfl⟩
      · rw [hstate, hlife]
        exact fun _ h => h
  | @start i b checked hstate hlife hsettings hself hlevels =>
      exact hs.switch checked.state hself (fun _ => rfl) hstate hcount hsettings hlevels
        (fun _ _ _ => rfl) (fun hne => absurd hlife hne)
  | @threadless config i b hpc checked hprepared hthread _ hstate hlife hsettings hself hlevels =>
      have hne : s.lifecycle ≠ .running := by
        rw [checked.lifecycle]
        simp
      refine hs.switch checked.state hself (fun _ => rfl) hstate hcount hsettings hlevels
        (fun hl => absurd (hlife ▸ hl) hne) fun _ levels hmem => ?_
      exact (hcareful config i b hpc checked hprepared hthread levels hmem).trans
        (hs.silent i (fun hl => absurd hl hne) levels hmem)
  | @silence i hi hstate hlife hsettings hself hlevels =>
      exact hs.switch hi hself (fun _ => rfl) hstate hcount hsettings hlevels
        (fun hl => by
          rw [hlife] at hl
          contradiction)
        (fun _ _ _ => rfl)
  | finish hbefore hafter hstate hsettings hlevels =>
      refine hs.transport hstate hlevels ?_ ?_ (fun hl => absurd hl hafter) fun _ _ => .inl hbefore
      · rw [hsettings, hcount]
        exact hs.born
      · rw [hsettings]
        exact fun _ _ => ⟨fun _ => rfl, rfl⟩

theorem LevelSound.prelude {m : Process} (hs : LevelSound s) (h : Prelude s t answers m) :
    LevelSound m := by
  cases h with
  | none => exact hs
  | hook => exact ⟨hs.born, hs.global, hs.configured, hs.running, hs.silent⟩
  | create hpc hstate =>
      have hself : ((s.createState answers.anchors).registerProcessExitHook.runtimes
          s.runtimeCount).leveling = (.info, []) :=
        congrArg leveling (Process.createState_runtimes_self _)
      obtain ⟨hglobal, hlist⟩ := leveling_eq hself
      exact
        { born := fun setting hmem => Nat.lt_succ_of_lt (hs.born setting hmem)
          global := fun i hi => by
            obtain rfl := Option.some.inj hi
            rw [hglobal]
            exact (lastGlobal_of_runtime_ne fun setting hmem => (hs.born setting hmem).ne).symm
          configured := fun i hi k levels hk => by
            obtain rfl := Option.some.inj hi
            rw [hlist] at hk
            contradiction
          running := fun i hi hl => by contradiction
          silent := fun i _ levels hmem => by
            by_cases hi : i = s.runtimeCount
            · subst hi
              rw [hlist] at hmem
              contradiction
            · have hother : (s.createState answers.anchors).registerProcessExitHook.runtimes i =
                  s.runtimes i := Process.createState_runtimes_of_ne _ hi
              rw [hother] at hmem
              refine hs.silent i (fun _ => ?_) levels hmem
              rw [hstate]
              simp }

theorem levelSound_of_visited (h : Visited Careful s) : LevelSound s := by
  induction h with
  | initial =>
      refine ⟨fun setting hmem => ?_, fun i hi => ?_, fun i hi => ?_, fun i hi => ?_,
        fun i _ levels hmem => ?_⟩ <;> contradiction
  | call _ _ _ ih => exact ⟨ih.born, ih.global, ih.configured, ih.running, ih.silent⟩
  | prelude _ hprelude ih => exact ih.prelude hprelude
  | thread hs hcareful heffect ih =>
      exact ih.thread (lifecycleSound_of_visited hs) (bindingSound_of_visited hs) hcareful heffect
  | @consumer s i completed phase hs hmove ih =>
      refine ih.transport (fun _ h => h) (setRuntime_congr leveling rfl) ih.born
        (fun _ _ => ⟨fun _ => rfl, rfl⟩) (fun h => h) fun _ h => h

end Unlog.Control
