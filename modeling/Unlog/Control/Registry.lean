import Unlog.Control.Binding

/-! # The channel registry

Ids are indices, names are pairwise distinct, and a registration that throws leaves no trace. -/

namespace Unlog

open Pattern Render

namespace RuntimeState

/-- The routes, their levels apart. -/
def entries (runtime : RuntimeState) := runtime.channels.map RouteState.entry

/-- What the registration of a channel writes in a runtime. -/
def roll (runtime : RuntimeState) :=
  (runtime.channelIds, runtime.entries, runtime.configuredSinks)

theorem roll_eq {runtime runtime' : RuntimeState} (h : runtime'.roll = runtime.roll) :
    runtime'.channelIds = runtime.channelIds ∧ runtime'.entries = runtime.entries ∧
      runtime'.configuredSinks = runtime.configuredSinks := by
  simpa [roll] using h

theorem roll_channels {runtime : RuntimeState} {channels : List RouteState}
    (h : channels.map RouteState.entry = runtime.channels.map RouteState.entry) :
    { runtime with channels := channels }.roll = runtime.roll := by
  simp [roll, entries, h]

@[simp] theorem entries_emplaceChannel (runtime : RuntimeState) (name : Text) (entry : SinkEntry) :
    (runtime.emplaceChannel name entry).entries =
      runtime.entries ++ [(runtime.channels.length, name, entry)] := by
  simp [entries, emplaceChannel, RouteState.entry, RouteState.configureLevel]

@[simp] theorem length_entries (runtime : RuntimeState) :
    runtime.entries.length = runtime.channels.length :=
  List.length_map _

end RuntimeState

/-- A list of pairs with distinct keys is searched by membership. -/
theorem lookup_eq_some_iff_mem {α β : Type*} [BEq α] [LawfulBEq α] {pairs : List (α × β)}
    (h : (pairs.map Prod.fst).Nodup) {key : α} {value : β} :
    pairs.lookup key = some value ↔ (key, value) ∈ pairs := by
  induction pairs with
  | nil => simp
  | cons pair pairs ih =>
      obtain ⟨head, tail⟩ := pair
      obtain ⟨hhead, htail⟩ := List.nodup_cons.mp h
      by_cases hkey : key = head
      · subst hkey
        have hnot : (key, value) ∉ pairs := by
          intro hmem
          exact hhead (List.mem_map.mpr ⟨_, hmem, rfl⟩)
        simp [hnot, eq_comm]
      · rw [List.lookup_cons, beq_false_of_ne hkey, List.mem_cons]
        simp [hkey, ih htail]

end Unlog

namespace Unlog.Control

open Pattern Render RuntimeState

variable {s s' : Process} {t i j b : ℕ} {answers : Answers} {config : GlobalConfig}
  {ok : Process → ℕ → Answers → Prop}

/-! ## What writes the roll -/

inductive RollEffect (s : Process) (t : ℕ) (answers : Answers) (s' : Process) : Prop
  | keep (hroll : ∀ i, (s'.runtimes i).roll = (s.runtimes i).roll)
      (hregistrations : s'.registrations = s.registrations) (hsinks : s'.sinkCount = s.sinkCount)
  | emplace {config : GlobalConfig} {i b : ℕ} {conf : Config} (sink : ℕ)
      (configuredSinks : List ConfiguredSink) (hstate : s.state = some i)
      (hlifecycle : s.lifecycle = .configuring)
      (hname : (s.runtimes i).channelIds.lookup conf.name = none)
      (hlength : (s.runtimes i).channels.length < invalidChannelId)
      (hsink : configuredSinkForLocked answers s.sinkCount (s.runtimes i).configuredSinks
        (channelRegistrationFor conf) = .ok (sink, configuredSinks))
      (hnext : s' = emplaceRoute s t config i b conf sink configuredSinks)
  | reset {final : RuntimeLifecycle} {i : ℕ} (hpc : s.pc t = .resetSinks i final)
      (hnext : s' = (resetSinks s i).setPc t (.finishDestroy i final))

theorem roll_activateChannels (runtime : RuntimeState) :
    (activateChannels runtime).roll = runtime.roll :=
  roll_channels (map_entry (f := RouteState.activate) (fun _ => rfl) _)

theorem ThreadEffect.roll (h : ThreadEffect s t answers s') : RollEffect s t answers s' := by
  cases h with
  | emplace sink configuredSinks _ hstate hlifecycle _ hname hlength hsink =>
      exact .emplace sink configuredSinks hstate hlifecycle hname hlength hsink rfl
  | resetSinks hpc => exact .reset hpc rfl
  | storeGlobal =>
      exact .keep (setRuntime_congr RuntimeState.roll
        (roll_channels (map_entry (entry_setLevelOf _ _) _))) rfl rfl
  | storeRoute =>
      exact .keep (setRuntime_congr RuntimeState.roll
        (roll_channels (modify_entry (entry_setLevelOf _ _) _ _))) rfl rfl
  | destroy =>
      exact .keep (setRuntime_congr RuntimeState.roll
        (roll_channels (map_entry entry_deactivate _))) rfl rfl
  | startThreadless | startRepeated | started =>
      exact .keep (setRuntime_congr RuntimeState.roll (roll_activateChannels (s.runtimes _)))
        rfl rfl
  | bind | pushSink | countFlusher | uncountFlusher | requestFlush | requestStop | join =>
      exact .keep (setRuntime_congr RuntimeState.roll rfl) rfl rfl
  | _ => exact .keep (fun _ => rfl) rfl rfl

/-! ## Ids and names -/

/-- The ids are the indices, and `channel_ids` is the index of the names. -/
structure RegistrySound (runtime : RuntimeState) : Prop where
  ids : runtime.entries.map (fun entry => entry.1) = List.range runtime.channels.length
  names : (runtime.entries.map fun entry => entry.2.1).Nodup
  index : runtime.channelIds = runtime.entries.map fun entry => (entry.2.1, entry.1)
  length_le : runtime.channels.length ≤ invalidChannelId

theorem RegistrySound.congr {runtime runtime' : RuntimeState} (h : RegistrySound runtime)
    (hroll : runtime'.roll = runtime.roll) : RegistrySound runtime' := by
  obtain ⟨hindex, hentries, -⟩ := roll_eq hroll
  have hlength : runtime'.channels.length = runtime.channels.length := by
    rw [← length_entries, hentries, length_entries]
  refine ⟨?_, ?_, ?_, ?_⟩
  · rw [hentries, hlength]
    exact h.ids
  · rw [hentries]
    exact h.names
  · rw [hindex, hentries]
    exact h.index
  · rw [hlength]
    exact h.length_le

theorem RegistrySound.keys {runtime : RuntimeState} (h : RegistrySound runtime) :
    (runtime.channelIds.map Prod.fst).Nodup := by
  rw [h.index, List.map_map]
  exact h.names

theorem RegistrySound.emplace {runtime : RuntimeState} {name : Text} {entry : SinkEntry}
    {configuredSinks : List ConfiguredSink} (h : RegistrySound runtime)
    (hname : runtime.channelIds.lookup name = none)
    (hlength : runtime.channels.length < invalidChannelId) :
    RegistrySound
      ({ runtime with configuredSinks := configuredSinks }.emplaceChannel name entry) where
  ids := by
    rw [entries_emplaceChannel, List.map_append]
    simp only [emplaceChannel, List.length_append, List.length_singleton, List.map_singleton,
      List.range_succ]
    rw [← h.ids]
    rfl
  names := by
    have hfresh : name ∉ runtime.entries.map fun entry => entry.2.1 := by
      intro hmem
      obtain ⟨old, hold, rfl⟩ := List.mem_map.mp hmem
      have hpair : (old.2.1, old.1) ∈ runtime.channelIds := by
        rw [h.index]
        exact List.mem_map.mpr ⟨old, hold, rfl⟩
      rw [(lookup_eq_some_iff_mem h.keys).mpr hpair] at hname
      contradiction
    rw [entries_emplaceChannel, List.map_append, List.map_singleton, ← List.concat_eq_append]
    exact (List.nodup_concat _ _).mpr ⟨hfresh, h.names⟩
  index := by
    rw [entries_emplaceChannel, List.map_append]
    exact congrArg (· ++ [(name, runtime.channels.length)]) h.index
  length_le := by
    rw [← length_entries, entries_emplaceChannel, List.length_append, length_entries]
    exact hlength

theorem RegistrySound.resetSinks {runtime : RuntimeState} (h : RegistrySound runtime)
    {customSinks : List SinkEntry} {requirements : TimeRequirements} :
    RegistrySound { runtime with
      channels := runtime.channels.map RouteState.resetSink
      configuredSinks := []
      customSinks := customSinks
      customSinkRequirements := requirements } := by
  obtain ⟨hids, hnames, hindex, hlength⟩ := h
  refine ⟨?_, ?_, ?_, ?_⟩
  · simpa [entries, RouteState.entry, Function.comp_def, RouteState.resetSink] using hids
  · simpa [entries, RouteState.entry, Function.comp_def, RouteState.resetSink] using hnames
  · simpa [entries, RouteState.entry, Function.comp_def, RouteState.resetSink] using hindex
  · simpa using hlength

theorem registrySound_empty {anchors : StartupAnchors} :
    RegistrySound { anchors := anchors } :=
  ⟨rfl, List.nodup_nil, rfl, Nat.zero_le _⟩

theorem forall_setRuntime {p : RuntimeState → Prop} {runtime : RuntimeState}
    (hall : ∀ j, p (s.runtimes j)) (h : p runtime) (j : ℕ) :
    p ((s.setRuntime i runtime).runtimes j) := by
  by_cases hj : j = i
  · subst hj
    exact setRuntime_self h
  · exact setRuntime_other hj (hall j)

theorem registrySound_of_visited (h : Visited ok s) (i : ℕ) : RegistrySound (s.runtimes i) := by
  induction h generalizing i with
  | initial => exact registrySound_empty
  | call _ _ _ ih => exact ih i
  | prelude _ hprelude ih =>
      cases hprelude with
      | none | hook => exact ih i
      | create => exact forall_setRuntime ih registrySound_empty i
  | thread _ _ heffect ih =>
      cases heffect.roll with
      | keep hroll => exact (ih i).congr (hroll i)
      | emplace sink configuredSinks _ _ hname hlength _ hnext =>
          subst hnext
          exact forall_setRuntime ih ((ih _).emplace hname hlength) i
      | reset _ hnext =>
          subst hnext
          exact forall_setRuntime ih (ih _).resetSinks i
  | consumer _ _ ih => exact (ih i).congr (setRuntime_congr RuntimeState.roll (by rfl) i)

/-! ## Registrations that throw -/

/-- The configuration of a `make_channel` or an `add_sink`. -/
def CallPc.registers? : CallPc → Option GlobalConfig
  | .access config (.makeChannel _) | .access config (.addSink _ _) => some config
  | .perform config _ (.makeChannel _) | .perform config _ (.addSink _ _) => some config
  | _ => none

/-- The call goes on, or it ended with an exception. -/
def Fruitless (s' : Process) (t : ℕ) : Prop :=
  s'.pc t = .idle → ∃ error, s'.result t = some (.threw error)

theorem fruitful {result : Result} (hresult : ∀ error, result ≠ .threw error)
    (hpc : s'.pc t = .idle) (h : s'.result t = some result) : ¬ Fruitless s' t := by
  intro hfruitless
  obtain ⟨error, herror⟩ := hfruitless hpc
  exact hresult error (Option.some.inj (h.symm.trans herror))

/-- A step of a registration that does not end it well changes neither runtimes nor backends. -/
theorem ThreadEffect.fruitless (h : ThreadEffect s t answers s')
    (hpc : (s.pc t).registers? = some config) (hstate : s.state = some i)
    (hbound : (s.runtimes i).producerBackend ≠ none) (hfruitless : Fruitless s' t) :
    s'.runtimes = s.runtimes ∧ s'.backends = s.backends := by
  have hother : ∀ {pc : CallPc} {p : Prop}, s.pc t = pc → pc.registers? = none → p := by
    intro pc p hpc' hnone
    rw [hpc', hnone] at hpc
    contradiction
  cases h with
  | move | «return» | routeIgnored | queryLevel | flushBegin | prewarm | destroyNone
  | finishDestroy => exact ⟨rfl, rfl⟩
  | bind _ hstate' hnone =>
      obtain rfl := Option.some.inj (hstate.symm.trans hstate')
      exact absurd hnone hbound
  | emplace =>
      exact absurd hfruitless (fruitful (by simp) (Function.update_self ..)
        (Function.update_self ..))
  | pushSink =>
      exact absurd hfruitless (fruitful (by simp) (Function.update_self ..)
        (Function.update_self ..))
  | storeGlobal hpc' => exact hother hpc' rfl
  | storeRoute hpc' => exact hother hpc' rfl
  | startUnprepared hpc' => exact hother hpc' rfl
  | startThreadless hpc' => exact hother hpc' rfl
  | startRepeated hpc' => exact hother hpc' rfl
  | started hpc' => exact hother hpc' rfl
  | countFlusher hpc' => exact hother hpc' rfl
  | requestFlush hpc' => exact hother hpc' rfl
  | destroy hpc' => exact hother hpc' rfl
  | requestStop hpc' => exact hother hpc' rfl
  | join hpc' => exact hother hpc' rfl
  | resetSinks hpc' => exact hother hpc' rfl
  | uncountFlusher hpc' =>
      rcases hpc' with hpc' | hpc'
      · exact hother hpc' rfl
      · exact hother hpc' rfl

/-! ## The contract -/

structure RegistryContract (s : Process) : Prop where
  ids : ∀ i k (route : RouteState), (s.runtimes i).channels[k]? = some route →
    route.id = k ∧ route.id ≠ invalidChannelId
  names : ∀ i, ((s.runtimes i).channels.map RouteState.name).Nodup
  lookup : ∀ i name k, (s.runtimes i).channelIds.lookup name = some k ↔
    ∃ route : RouteState, (s.runtimes i).channels[k]? = some route ∧ route.name = name
  /-- On a runtime that is bound to the caller's configuration. -/
  atomic : ∀ t i b config answers s', (s.pc t).registers? = some config →
    s.state = some i → Binds s i b config →
    process.step s (.thread t answers) = some s' → Fruitless s' t →
    s'.runtimes = s.runtimes ∧ s'.backends = s.backends

theorem RegistrySound.id_eq {runtime : RuntimeState} (h : RegistrySound runtime) {k : ℕ}
    {route : RouteState} (hroute : runtime.channels[k]? = some route) : route.id = k := by
  have hid : (runtime.entries.map fun entry => entry.1)[k]? = some route.id := by
    simp [entries, hroute, RouteState.entry]
  obtain ⟨hlt, -⟩ := List.getElem?_eq_some_iff.mp hroute
  rw [h.ids, List.getElem?_range hlt] at hid
  exact (Option.some.inj hid).symm

theorem RegistrySound.lookup_iff {runtime : RuntimeState} (h : RegistrySound runtime) {name : Text}
    {k : ℕ} : runtime.channelIds.lookup name = some k ↔
      ∃ route, runtime.channels[k]? = some route ∧ route.name = name := by
  rw [lookup_eq_some_iff_mem h.keys, h.index]
  constructor
  · intro hmem
    obtain ⟨entry, hentry, hpair⟩ := List.mem_map.mp hmem
    obtain ⟨route, hroute, rfl⟩ := List.mem_map.mp hentry
    obtain ⟨index, hindex⟩ := List.mem_iff_getElem?.mp hroute
    obtain ⟨rfl, rfl⟩ := Prod.mk.inj hpair
    obtain rfl : route.id = index := h.id_eq hindex
    exact ⟨route, hindex, rfl⟩
  · rintro ⟨route, hroute, rfl⟩
    refine List.mem_map.mpr ⟨route.entry, List.mem_map_of_mem (List.mem_of_getElem? hroute), ?_⟩
    exact Prod.ext rfl (h.id_eq hroute)

theorem registryContract_of_reachable (h : process.Reachable s) : RegistryContract s := by
  have hs := registrySound_of_visited (visited_of_reachable h)
  refine ⟨fun i k route hroute => ?_, fun i => ?_, fun i name k => (hs i).lookup_iff, ?_⟩
  · obtain ⟨hlt, -⟩ := List.getElem?_eq_some_iff.mp hroute
    have hid := (hs i).id_eq hroute
    exact ⟨hid, hid ▸ (hlt.trans_le (hs i).length_le).ne⟩
  · have hnames := (hs i).names
    rwa [entries, List.map_map] at hnames
  · intro t i b config answers s' hpc hstate hbinds hstep hfruitless
    have hbound : (s.runtimes i).producerBackend ≠ none := by
      rw [hbinds.1]
      simp
    obtain ⟨m, hprelude, heffect⟩ := threadStep_cases hstep
    cases hprelude with
    | none | hook => exact heffect.fruitless hpc hstate hbound hfruitless
    | create _ hnone => exact absurd (hnone.symm.trans hstate) (by simp)

/-- Thread 1 registers a channel twice. -/
def demoDuplicate : List Action :=
  [.call 1 (.operate {} (.makeChannel {})), .thread 1 {}, .thread 1 {},
    .call 1 (.operate {} (.makeChannel {})), .thread 1 {}, .thread 1 {}]

theorem registryContract_duplicate :
    ∃ s, process.run Process.initial demoDuplicate = some s ∧
      (s.runtimes 0).channelIds = [(ascii "unlog", 0)] ∧
      s.result 1 = some (.threw (.invalidArgument
        (ascii "A channel with the name unlog already exists"))) ∧ RegistryContract s := by
  have hrun : (process.run Process.initial demoDuplicate).map (fun s =>
      ((s.runtimes 0).channelIds, s.result 1)) =
      some ([(ascii "unlog", 0)], some (.threw (.invalidArgument
        (ascii "A channel with the name unlog already exists")))) := by
    decide +kernel
  obtain ⟨s, hs, hfacts⟩ := Option.map_eq_some_iff.mp hrun
  obtain ⟨hindex, hresult⟩ := Prod.mk.inj hfacts
  have hinitial : process.Reachable Process.initial := .initial rfl
  exact ⟨s, hs, hindex, hresult, registryContract_of_reachable (hinitial.run hs)⟩

end Unlog.Control
