import Unlog.Control.Registry
import Unlog.Runtime.Target

/-! # Shared sinks

Routes share a sink exactly where they write to one target, and the flush list has every sink of
a route. -/

namespace Unlog

open Pattern Render

/-- The sinks that `flush_runtime_sinks` flushes, in order. -/
def flushRuntimeSinks (runtime : RuntimeState) : List (Option ℕ) :=
  runtime.configuredSinks.map (fun sink => some sink.sink) ++
    runtime.customSinks.map fun entry => entry.sink

/-! ## The table of configured sinks -/

/-- No key and no sink is in the table twice, and new sinks are not in it. -/
structure SinkTable (configuredSinks : List ConfiguredSink) (fresh : ℕ) : Prop where
  keys : (configuredSinks.map ConfiguredSink.targetKey).Nodup
  sinks : (configuredSinks.map ConfiguredSink.sink).Nodup
  fresh : ∀ sink ∈ configuredSinks, sink.sink < fresh

variable {configuredSinks configuredSinks' : List ConfiguredSink} {fresh fresh' sink : ℕ}
  {answers : Answers} {conf : Config}

theorem SinkTable.mono (h : SinkTable configuredSinks fresh) (hle : fresh ≤ fresh') :
    SinkTable configuredSinks fresh' :=
  ⟨h.keys, h.sinks, fun sink hmem => (h.fresh sink hmem).trans_le hle⟩

theorem sinkTable_empty : SinkTable [] fresh :=
  ⟨List.nodup_nil, List.nodup_nil, fun _ hmem => absurd hmem List.not_mem_nil⟩

theorem makeConfiguredSink_eq {sinkType : SinkType} {filename : Option Text} {outputFd : Option ℤ}
    {unixDgramPath : Option Text}
    (h : makeConfiguredSink answers fresh sinkType filename outputFd unixDgramPath = .ok sink) :
    sink = fresh := by
  unfold makeConfiguredSink at h
  repeat' split at h
  all_goals first | contradiction | exact (Except.ok.inj h).symm

/-- The sink of a registration was there under its key, or is a new one. -/
theorem configuredSinkForLocked_cases
    (h : configuredSinkForLocked answers fresh configuredSinks (channelRegistrationFor conf) =
      .ok (sink, configuredSinks')) :
    ⟨sink, conf.targetKey⟩ ∈ configuredSinks ∧ configuredSinks' = configuredSinks ∨
      (∀ old ∈ configuredSinks, old.targetKey ≠ conf.targetKey) ∧ sink = fresh ∧
        configuredSinks' = configuredSinks ++ [⟨sink, conf.targetKey⟩] := by
  simp only [configuredSinkForLocked] at h
  split at h
  case h_1 duplicate hfind =>
    obtain ⟨rfl, rfl⟩ := Prod.mk.inj (Except.ok.inj h)
    have hfound := List.find?_some hfind
    have hkey : duplicate.targetKey = conf.targetKey := eq_of_beq hfound
    refine .inl ⟨?_, rfl⟩
    rw [← hkey]
    exact List.mem_of_find?_eq_some hfind
  case h_2 hnone =>
    split at h
    case h_1 => contradiction
    case h_2 made hmade =>
      obtain ⟨rfl, rfl⟩ := Prod.mk.inj (Except.ok.inj h)
      refine .inr ⟨fun old hold hkey => ?_, makeConfiguredSink_eq hmade, rfl⟩
      exact List.find?_eq_none.mp hnone old hold (beq_iff_eq.mpr hkey)

theorem SinkTable.insert (h : SinkTable configuredSinks fresh)
    (hsink : configuredSinkForLocked answers fresh configuredSinks (channelRegistrationFor conf) =
      .ok (sink, configuredSinks')) : SinkTable configuredSinks' (fresh + 1) := by
  rcases configuredSinkForLocked_cases hsink with ⟨-, rfl⟩ | ⟨hkeys, rfl, rfl⟩
  · exact h.mono (Nat.le_succ _)
  · refine ⟨?_, ?_, fun old hold => ?_⟩
    · rw [List.map_append, List.map_singleton, ← List.concat_eq_append]
      refine (List.nodup_concat _ _).mpr ⟨fun hmem => ?_, h.keys⟩
      obtain ⟨old, hold, hkey⟩ := List.mem_map.mp hmem
      exact hkeys old hold hkey
    · rw [List.map_append, List.map_singleton, ← List.concat_eq_append]
      refine (List.nodup_concat _ _).mpr ⟨fun hmem => ?_, h.sinks⟩
      obtain ⟨old, hold, hsame⟩ := List.mem_map.mp hmem
      exact (h.fresh old hold).ne hsame
    · rcases List.mem_append.mp hold with hold | hold
      · exact Nat.lt_succ_of_lt (h.fresh old hold)
      · obtain rfl := List.mem_singleton.mp hold
        exact Nat.lt_succ_self _

theorem mem_configuredSinkForLocked
    (hsink : configuredSinkForLocked answers fresh configuredSinks (channelRegistrationFor conf) =
      .ok (sink, configuredSinks')) :
    ⟨sink, conf.targetKey⟩ ∈ configuredSinks' ∧ configuredSinks ⊆ configuredSinks' := by
  rcases configuredSinkForLocked_cases hsink with ⟨hmem, rfl⟩ | ⟨-, -, rfl⟩
  · exact ⟨hmem, List.Subset.refl _⟩
  · exact ⟨List.mem_append_right _ (List.mem_singleton_self _), List.subset_append_left _ _⟩

/-- Two sinks of the table are one exactly where their keys are. -/
theorem SinkTable.eq_iff (h : SinkTable configuredSinks fresh) {a b : ConfiguredSink}
    (ha : a ∈ configuredSinks) (hb : b ∈ configuredSinks) :
    a.sink = b.sink ↔ a.targetKey = b.targetKey := by
  constructor
  · intro hsink
    rw [List.inj_on_of_nodup_map h.sinks ha hb hsink]
  · intro hkey
    rw [List.inj_on_of_nodup_map h.keys ha hb hkey]

end Unlog

namespace Unlog.Control

open Pattern Render RuntimeState

variable {s s' : Process} {t i : ℕ} {answers : Answers} {ok : Process → ℕ → Answers → Prop}

/-! ## Before the sinks are given up -/

/-- The runtime is the current one and not shut down, or has a consumer to join. -/
def Unstopped (s : Process) (i : ℕ) : Prop :=
  s.state = some i ∧ (s.lifecycle = .configuring ∨ s.lifecycle = .running) ∨
    ¬ (s.runtimes i).Halted

theorem ThreadEffect.current (hs : LifecycleSound s) (h : ThreadEffect s t answers s')
    (hstate : s'.state = some i) (hlifecycle : s'.lifecycle = .configuring ∨ s'.lifecycle = .running) :
    s.state = some i ∧ (s.lifecycle = .configuring ∨ s.lifecycle = .running) := by
  cases h with
  | startRepeated _ checked | started _ checked => exact ⟨hstate, .inl checked.lifecycle⟩
  | @destroyNone final hpc | @finishDestroy final _ hpc =>
      have hfinal := hs.final t final (by rw [hpc]; rfl)
      have hlifecycle' : final = .configuring ∨ final = .running := hlifecycle
      rcases hfinal with rfl | rfl <;> simp at hlifecycle'
  | destroy => simp at hlifecycle
  | _ => exact ⟨hstate, hlifecycle⟩

theorem ThreadEffect.unstopped (hs : LifecycleSound s) (h : ThreadEffect s t answers s')
    (hi : Unstopped s' i) : Unstopped s i := by
  rcases hi with ⟨hstate, hlifecycle⟩ | hnot
  · exact .inl (h.current hs hstate hlifecycle)
  have hkeep : (∀ j, (s'.runtimes j).standing = (s.runtimes j).standing) → Unstopped s i :=
    fun hstanding => .inr fun hhalted => hnot (hhalted.congr (hstanding i))
  have hother : ∀ {j : ℕ}, i ≠ j → (∀ k, k ≠ j → s'.runtimes k = s.runtimes k) → Unstopped s i :=
    fun hij hsame => .inr (hsame i hij ▸ hnot)
  cases h with
  | bind | emplace | pushSink | storeGlobal | storeRoute | countFlusher | uncountFlusher
  | requestFlush | destroy | resetSinks | startRepeated =>
      exact hkeep (setRuntime_congr standing rfl)
  | @startThreadless _ j _ _ checked | @started _ j _ _ checked =>
      by_cases hij : i = j
      · subst hij
        exact .inl ⟨checked.state, .inl checked.lifecycle⟩
      · exact hother hij fun _ hk => Process.setRuntime_runtimes_of_ne _ hk
  | @requestStop final j hpc =>
      by_cases hij : i = j
      · subst hij
        have hserving := (hs.destroyer t i (by rw [hpc]; rfl)).2.2
        rw [hpc] at hserving
        exact .inr (Serving.not_halted hserving)
      · exact hother hij fun _ hk => Process.setRuntime_runtimes_of_ne _ hk
  | @join final j hpc hended =>
      by_cases hij : i = j
      · subst hij
        refine absurd ?_ hnot
        exact setRuntime_self (p := Halted) ⟨.inr hended, rfl, rfl⟩
      · exact hother hij fun _ hk => Process.setRuntime_runtimes_of_ne _ hk
  | _ => exact hkeep fun _ => rfl

/-! ## The invariant -/

structure SharingSound (s : Process) : Prop where
  tables : ∀ i, SinkTable (s.runtimes i).configuredSinks s.sinkCount
  born : ∀ registration ∈ s.registrations, registration.runtime < s.runtimeCount ∧
    registration.route < (s.runtimes registration.runtime).entries.length
  unique : ∀ registration ∈ s.registrations, ∀ registration' ∈ s.registrations,
    registration.runtime = registration'.runtime → registration.route = registration'.route →
    registration = registration'
  registered : ∀ i k, k < (s.runtimes i).entries.length →
    ∃ conf, (⟨i, k, conf⟩ : Registration) ∈ s.registrations
  held : ∀ registration ∈ s.registrations, ∀ entry sink,
    (s.runtimes registration.runtime).entries[registration.route]? = some entry →
    entry.2.2.sink = some sink →
    ⟨sink, registration.conf.targetKey⟩ ∈ (s.runtimes registration.runtime).configuredSinks
  present : ∀ i, Unstopped s i → ∀ entry ∈ (s.runtimes i).entries, entry.2.2.sink ≠ none

theorem SharingSound.keep (hs : SharingSound s)
    (hroll : ∀ i, (s'.runtimes i).roll = (s.runtimes i).roll)
    (hregistrations : s'.registrations = s.registrations) (hsinks : s'.sinkCount = s.sinkCount)
    (hcount : s'.runtimeCount = s.runtimeCount) (hunstopped : ∀ i, Unstopped s' i → Unstopped s i) :
    SharingSound s' := by
  have hentries : ∀ i, (s'.runtimes i).entries = (s.runtimes i).entries :=
    fun i => (roll_eq (hroll i)).2.1
  have hconfigured : ∀ i, (s'.runtimes i).configuredSinks = (s.runtimes i).configuredSinks :=
    fun i => (roll_eq (hroll i)).2.2
  refine ⟨fun i => ?_, ?_, ?_, fun i k hk => ?_, ?_, fun i hi entry hentry => ?_⟩
  · rw [hconfigured, hsinks]
    exact hs.tables i
  · rw [hregistrations, hcount]
    intro registration hmem
    rw [hentries]
    exact hs.born registration hmem
  · rw [hregistrations]
    exact hs.unique
  · rw [hentries] at hk
    rw [hregistrations]
    exact hs.registered i k hk
  · rw [hregistrations]
    intro registration hmem entry sink hentry hsink
    rw [hentries] at hentry
    rw [hconfigured]
    exact hs.held registration hmem entry sink hentry hsink
  · rw [hentries] at hentry
    exact hs.present i (hunstopped i hi) entry hentry

theorem SharingSound.emplace {config : GlobalConfig} {b : ℕ} {conf : Config} {sink : ℕ}
    {configuredSinks : List ConfiguredSink} (hs : SharingSound s) (hborn : i < s.runtimeCount)
    (hsink : configuredSinkForLocked answers s.sinkCount (s.runtimes i).configuredSinks
      (channelRegistrationFor conf) = .ok (sink, configuredSinks))
    (hunstopped : ∀ j, Unstopped (emplaceRoute s t config i b conf sink configuredSinks) j →
      Unstopped s j) :
    SharingSound (emplaceRoute s t config i b conf sink configuredSinks) := by
  obtain ⟨hmem, hsubset⟩ := mem_configuredSinkForLocked hsink
  have hself : (emplaceRoute s t config i b conf sink configuredSinks).runtimes i =
      { s.runtimes i with configuredSinks := configuredSinks }.emplaceChannel conf.name
        (sinkEntryFor conf (some sink)) := Process.setRuntime_runtimes_self _
  have hother : ∀ j, j ≠ i →
      (emplaceRoute s t config i b conf sink configuredSinks).runtimes j = s.runtimes j :=
    fun j hj => Process.setRuntime_runtimes_of_ne _ hj
  have hentries : ((emplaceRoute s t config i b conf sink configuredSinks).runtimes i).entries =
      (s.runtimes i).entries ++
        [((s.runtimes i).channels.length, conf.name, sinkEntryFor conf (some sink))] := by
    rw [hself, entries_emplaceChannel]
    rfl
  have hconfigured : ((emplaceRoute s t config i b conf sink configuredSinks).runtimes
      i).configuredSinks = configuredSinks := by
    rw [hself]
    rfl
  have hlength : ((emplaceRoute s t config i b conf sink configuredSinks).runtimes
      i).entries.length = (s.runtimes i).channels.length + 1 := by
    rw [hentries, List.length_append, length_entries, List.length_singleton]
  -- the new registration is not an old one
  have hnew : ∀ registration ∈ s.registrations,
      registration.runtime = i → registration.route ≠ (s.runtimes i).channels.length := by
    rintro registration hold rfl hroute
    have hlt := (hs.born registration hold).2
    rw [hroute, length_entries] at hlt
    exact lt_irrefl _ hlt
  refine ⟨fun j => ?_, fun registration hreg => ?_, ?_, fun j k hk => ?_, ?_,
    fun j hj entry hentry => ?_⟩
  · by_cases hj : j = i
    · subst hj
      rw [hconfigured]
      exact (hs.tables j).insert hsink
    · rw [hother j hj]
      exact (hs.tables j).mono (Nat.le_succ _)
  · rcases List.mem_cons.mp hreg with rfl | hold
    · refine ⟨hborn, ?_⟩
      rw [hlength]
      exact Nat.lt_succ_self _
    · obtain ⟨hlt, hroute⟩ := hs.born registration hold
      refine ⟨hlt, ?_⟩
      by_cases hj : registration.runtime = i
      · rw [hj, length_entries] at hroute
        rw [hj, hlength]
        exact Nat.lt_succ_of_lt hroute
      · rwa [hother _ hj]
  · intro registration hreg registration' hreg' hruntime hroute
    rcases List.mem_cons.mp hreg with rfl | hold
    · rcases List.mem_cons.mp hreg' with rfl | hold'
      · rfl
      · exact absurd hroute.symm (hnew registration' hold' hruntime.symm)
    · rcases List.mem_cons.mp hreg' with rfl | hold'
      · exact absurd hroute (hnew registration hold hruntime)
      · exact hs.unique registration hold registration' hold' hruntime hroute
  · by_cases hj : j = i
    · subst hj
      rw [hlength] at hk
      rcases Nat.lt_succ_iff_lt_or_eq.mp hk with hk | rfl
      · obtain ⟨conf', hconf'⟩ := hs.registered j k (by rwa [length_entries])
        exact ⟨conf', List.mem_cons_of_mem _ hconf'⟩
      · exact ⟨conf, List.mem_cons_self⟩
    · rw [hother j hj] at hk
      obtain ⟨conf', hconf'⟩ := hs.registered j k hk
      exact ⟨conf', List.mem_cons_of_mem _ hconf'⟩
  · intro registration hreg entry m hentry hm
    rcases List.mem_cons.mp hreg with rfl | hold
    · have hlast : ((s.runtimes i).entries ++ [((s.runtimes i).channels.length, conf.name,
          sinkEntryFor conf (some sink))])[(s.runtimes i).channels.length]? = some entry := by
        rw [← hentries]
        exact hentry
      rw [← length_entries, List.getElem?_concat_length] at hlast
      obtain rfl := Option.some.inj hlast
      obtain rfl := Option.some.inj hm
      rw [hconfigured]
      exact hmem
    · by_cases hj : registration.runtime = i
      · have hlt := (hs.born registration hold).2
        rw [hj, hentries, List.getElem?_append_left (hj ▸ hlt)] at hentry
        rw [hj, hconfigured]
        refine hsubset ?_
        rw [← hj] at hentry ⊢
        exact hs.held registration hold entry m hentry hm
      · rw [hother _ hj] at hentry ⊢
        exact hs.held registration hold entry m hentry hm
  · by_cases hi : j = i
    · subst hi
      rw [hentries] at hentry
      rcases List.mem_append.mp hentry with hold | hlast
      · exact hs.present j (hunstopped j hj) entry hold
      · obtain rfl := List.mem_singleton.mp hlast
        simp [sinkEntryFor]
    · rw [hother j hi] at hentry
      exact hs.present j (hunstopped j hj) entry hentry

theorem SharingSound.reset {final : RuntimeLifecycle} (hs : SharingSound s)
    (hlifecycle : LifecycleSound s) (hpc : s.pc t = .resetSinks i final)
    (hunstopped : ∀ j, Unstopped ((resetSinks s i).setPc t (.finishDestroy i final)) j →
      Unstopped s j) :
    SharingSound ((resetSinks s i).setPc t (.finishDestroy i final)) := by
  obtain ⟨hdown, hstate, hhalted⟩ := hlifecycle.destroyer t i (by rw [hpc]; rfl)
  rw [hpc] at hhalted
  have hstopped : ¬ Unstopped s i := by
    rintro (⟨-, hcurrent⟩ | hnot)
    · rw [hdown] at hcurrent
      simp at hcurrent
    · exact hnot hhalted
  have hother : ∀ j, j ≠ i →
      ((resetSinks s i).setPc t (.finishDestroy i final)).runtimes j = s.runtimes j :=
    fun j hj => Process.setRuntime_runtimes_of_ne _ hj
  have hself : (((resetSinks s i).setPc t (.finishDestroy i final)).runtimes i).configuredSinks = [] ∧
      (((resetSinks s i).setPc t (.finishDestroy i final)).runtimes i).channels =
        (s.runtimes i).channels.map RouteState.resetSink :=
    setRuntime_self (p := fun r => r.configuredSinks = [] ∧
      r.channels = (s.runtimes i).channels.map RouteState.resetSink) ⟨rfl, rfl⟩
  have hlength : ∀ j, (((resetSinks s i).setPc t (.finishDestroy i final)).runtimes
      j).entries.length = (s.runtimes j).entries.length := by
    intro j
    by_cases hj : j = i
    · subst hj
      rw [length_entries, hself.2, List.length_map, length_entries]
    · rw [hother j hj]
  refine ⟨fun j => ?_, fun registration hreg => ?_, hs.unique, fun j k hk => ?_, ?_,
    fun j hj => ?_⟩
  · by_cases hj : j = i
    · subst hj
      rw [hself.1]
      exact sinkTable_empty
    · rw [hother j hj]
      exact hs.tables j
  · rw [hlength]
    exact hs.born registration hreg
  · rw [hlength] at hk
    exact hs.registered j k hk
  · intro registration hreg entry sink hentry hsink
    by_cases hj : registration.runtime = i
    · rw [hj, entries, hself.2, List.map_map] at hentry
      obtain ⟨route, -, rfl⟩ := List.mem_map.mp (List.mem_of_getElem? hentry)
      contradiction
    · rw [hother _ hj] at hentry ⊢
      exact hs.held registration hreg entry sink hentry hsink
  · have hji : j ≠ i := by
      rintro rfl
      exact hstopped (hunstopped j hj)
    rw [hother j hji]
    exact hs.present j (hunstopped j hj)

theorem SharingSound.create (hs : SharingSound s) {anchors : StartupAnchors} :
    SharingSound (s.createState anchors).registerProcessExitHook := by
  have hother : ∀ j, j ≠ s.runtimeCount →
      (s.createState anchors).registerProcessExitHook.runtimes j = s.runtimes j :=
    fun j hj => Process.createState_runtimes_of_ne _ hj
  have hself : (s.createState anchors).registerProcessExitHook.runtimes s.runtimeCount =
      { anchors := anchors } := Process.createState_runtimes_self _
  refine ⟨fun j => ?_, fun registration hreg => ?_, hs.unique, fun j k hk => ?_,
    fun registration hreg => ?_, fun j hj => ?_⟩
  · by_cases hj : j = s.runtimeCount
    · rw [hj, hself]
      exact sinkTable_empty
    · rw [hother j hj]
      exact hs.tables j
  · obtain ⟨hlt, hroute⟩ := hs.born registration hreg
    refine ⟨Nat.lt_succ_of_lt hlt, ?_⟩
    rwa [hother _ hlt.ne]
  · by_cases hj : j = s.runtimeCount
    · rw [hj, hself] at hk
      contradiction
    · rw [hother j hj] at hk
      exact hs.registered j k hk
  · rw [hother _ (hs.born registration hreg).1.ne]
    exact hs.held registration hreg
  · by_cases hnew : j = s.runtimeCount
    · rw [hnew, hself]
      exact fun entry hentry => absurd hentry List.not_mem_nil
    · rw [hother j hnew]
      refine hs.present j (hj.imp (fun hcurrent => ?_) fun hnot => ?_)
      · exact absurd (Option.some.inj hcurrent.1).symm hnew
      · rwa [hother j hnew] at hnot

theorem SharingSound.consumer {completed : ℕ} {phase : ConsumerPhase} (hs : SharingSound s)
    (hmove : ConsumerMove (s.runtimes i) (s.runtimes i).consumer phase completed) :
    SharingSound (s.setRuntime i { s.runtimes i with
      consumer := phase
      flushCompleted := completed }) := by
  refine hs.keep (setRuntime_congr RuntimeState.roll rfl) rfl rfl rfl fun j hj => ?_
  refine hj.imp id fun hnot => ?_
  by_cases hji : j = i
  · subst hji
    exact fun hhalted => hhalted.not_consumer hmove
  · rwa [Process.setRuntime_runtimes_of_ne _ hji] at hnot

theorem sharingSound_of_visited (h : Visited ok s) : SharingSound s := by
  induction h with
  | initial =>
      refine ⟨fun _ => sinkTable_empty, ?_, ?_, fun _ _ hk => ?_, ?_, fun _ _ => ?_⟩ <;>
        first | contradiction | exact fun _ hmem => absurd hmem List.not_mem_nil
  | call _ _ _ ih => exact ih.keep (fun _ => rfl) rfl rfl rfl fun _ hj => hj
  | prelude _ hprelude ih =>
      cases hprelude with
      | none => exact ih
      | hook => exact ih.keep (fun _ => rfl) rfl rfl rfl fun _ hj => hj
      | create => exact ih.create
  | thread hs _ heffect ih =>
      have hlifecycle := lifecycleSound_of_visited hs
      have hunstopped := fun j => heffect.unstopped (i := j) hlifecycle
      cases heffect.roll with
      | keep hroll hregistrations hsinks =>
          exact ih.keep hroll hregistrations hsinks heffect.runtimeCount_eq hunstopped
      | emplace sink configuredSinks hstate _ _ _ hsink hnext =>
          subst hnext
          exact ih.emplace (hlifecycle.born _ hstate) hsink hunstopped
      | reset hpc hnext =>
          subst hnext
          exact ih.reset hlifecycle hpc hunstopped
  | consumer _ hmove ih => exact ih.consumer hmove

/-! ## The contract -/

structure SharingContract (s : Process) : Prop where
  keys : ∀ i, ((s.runtimes i).configuredSinks.map ConfiguredSink.targetKey).Nodup
  registered : ∀ i k (route : RouteState), (s.runtimes i).channels[k]? = some route →
    ∃! conf, (⟨i, k, conf⟩ : Registration) ∈ s.registrations
  shared : ∀ i k k' conf conf' (route route' : RouteState) sink sink' target target',
    ⟨i, k, conf⟩ ∈ s.registrations → ⟨i, k', conf'⟩ ∈ s.registrations →
    (s.runtimes i).channels[k]? = some route → (s.runtimes i).channels[k']? = some route' →
    route.sink.sink = some sink → route'.sink.sink = some sink' →
    sinkTarget conf = some target → sinkTarget conf' = some target' →
    (sink = sink' ↔ conf.sinkType = conf'.sinkType ∧ target = target')
  /-- Until shutdown, and as long as there is a consumer to join. -/
  covered : ∀ i, Unstopped s i → ∀ route ∈ (s.runtimes i).channels, ∃ sink,
    route.sink.sink = some sink ∧ some sink ∈ flushRuntimeSinks (s.runtimes i) ∧
    ((s.runtimes i).configuredSinks.map ConfiguredSink.sink).count sink = 1

theorem entries_getElem? {runtime : RuntimeState} {k : ℕ} {route : RouteState}
    (h : runtime.channels[k]? = some route) : runtime.entries[k]? = some route.entry := by
  rw [entries, List.getElem?_map, h]
  rfl

theorem sharingContract_of_reachable (h : process.Reachable s) : SharingContract s := by
  have hs := sharingSound_of_visited (visited_of_reachable h)
  have hregistered : ∀ i k (route : RouteState), (s.runtimes i).channels[k]? = some route →
      ∃ conf, (⟨i, k, conf⟩ : Registration) ∈ s.registrations := by
    intro i k route hroute
    refine hs.registered i k ?_
    rw [length_entries]
    exact (List.getElem?_eq_some_iff.mp hroute).1
  refine ⟨fun i => (hs.tables i).keys, fun i k route hroute => ?_, ?_, fun i hi route hroute => ?_⟩
  · obtain ⟨conf, hconf⟩ := hregistered i k route hroute
    refine ⟨conf, hconf, fun conf' hconf' => ?_⟩
    simpa using hs.unique _ hconf' _ hconf rfl rfl
  · intro i k k' conf conf' route route' sink sink' target target' hreg hreg' hroute hroute' hsink
      hsink' htarget htarget'
    have hmem := hs.held _ hreg _ _ (entries_getElem? hroute) hsink
    have hmem' := hs.held _ hreg' _ _ (entries_getElem? hroute') hsink'
    rw [← targetKey_eq_iff htarget htarget']
    exact (hs.tables i).eq_iff hmem hmem'
  · obtain ⟨k, hk⟩ := List.mem_iff_getElem?.mp hroute
    obtain ⟨conf, hconf⟩ := hregistered i k route hk
    obtain ⟨sink, hsink⟩ := Option.ne_none_iff_exists'.mp
      (hs.present i hi route.entry (List.mem_map_of_mem hroute))
    have hmem := hs.held _ hconf _ _ (entries_getElem? hk) hsink
    refine ⟨sink, hsink, ?_, ?_⟩
    · refine List.mem_append_left _ (List.mem_map.mpr ⟨_, hmem, rfl⟩)
    · exact List.count_eq_one_of_mem (hs.tables i).sinks (List.mem_map.mpr ⟨_, hmem, rfl⟩)

/-- Two channels of one descriptor, and one of another. -/
def demoShared : List Action :=
  List.flatten
    [[.call 1 (.operate {} (.makeChannel { sinkType := .fd, outputFd := some 7 })), .thread 1 {},
        .thread 1 {}],
      [.call 1 (.operate {}
          (.makeChannel { name := ascii "a", sinkType := .fd, outputFd := some 7 })),
        .thread 1 {}, .thread 1 {}],
      [.call 1 (.operate {}
          (.makeChannel { name := ascii "b", sinkType := .fd, outputFd := some 77 })),
        .thread 1 {}, .thread 1 {}]]

theorem sharingContract_fds :
    ∃ s, process.run Process.initial demoShared = some s ∧
      (s.runtimes 0).channels.map (fun route => route.sink.sink) = [some 0, some 0, some 2] ∧
      SharingContract s := by
  have hrun : (process.run Process.initial demoShared).map (fun s =>
      (s.runtimes 0).channels.map (fun route => route.sink.sink)) =
        some [some 0, some 0, some 2] := by
    decide +kernel
  obtain ⟨s, hs, hsinks⟩ := Option.map_eq_some_iff.mp hrun
  have hinitial : process.Reachable Process.initial := .initial rfl
  exact ⟨s, hs, hsinks, sharingContract_of_reachable (hinitial.run hs)⟩

end Unlog.Control
