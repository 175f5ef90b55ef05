import Unlog.Handoff.Cases
import Unlog.Library.FreeList

/-! # Who holds which producer

The registry of one page kind, its free list, and the producers the threads hold. -/

namespace Unlog.Handoff

open Library

/-- The producer a thread works on, between obtaining it and its last access to it. -/
def ThreadPc.producer? : ThreadPc → Option ProducerId
  | .produce _ p => some p
  | .countDropped p => some p
  | .countEmitted record _ => some record.producer
  | .countTruncated record => some record.producer
  | .markEnqueued record => some record.producer
  | .publishBit record => some record.producer
  | .retire pages index => some (.pooled pages index)
  | _ => none

/-- What `bind_active_word` sets. -/
def Producer.binding (producer : Producer) :=
  (producer.activeWord, producer.producerIndex, producer.activeBitMask)

/-- The fields of a producer that the registry and its lifecycle use. -/
def Producer.role (producer : Producer) :=
  (producer.binding, producer.nextFreeIndex, producer.lifecycle)

def Registry.extent (registry : Registry) := (registry.size, registry.slots, registry.count)

def Registry.shape (registry : Registry) := (registry.extent, registry.freeHead)

/-- The consumer has marked the producer free and not yet pushed it. -/
def Pushing (s : State) (pages : Pages) (index : ℕ) : Prop :=
  ∃ round resume, s.consumer = .visit round resume (.pooled pages index) .pushFree

/-- The chain through `next_free_index`. -/
def FreeChain (conf : Sealed) (s : State) (pages : Pages) (list : List ℕ) : Prop :=
  Chain (fun i => (s.producer (.pooled pages i)).nextFreeIndex) conf.maxProducers
    (s.registry pages).freeHead list

/-- `list` is the free list: all free producers but the one being pushed. -/
structure FreeList (conf : Sealed) (s : State) (pages : Pages) (list : List ℕ) : Prop where
  chain : FreeChain conf s pages list
  nodup : list.Nodup
  sound : ∀ i ∈ list, i < (s.registry pages).count ∧
    (s.producer (.pooled pages i)).lifecycle = .free
  complete : ∀ i, (s.producer (.pooled pages i)).lifecycle = .free →
    i ∈ list ∨ Pushing s pages i
  apart : ∀ i, Pushing s pages i → i ∉ list

/-- The storage, the slots and the bindings of the producers made so far. -/
structure Layout (conf : Sealed) (s : State) (pages : Pages) : Prop where
  size_eq : (s.registry pages).size = (s.registry pages).count
  le_max : (s.registry pages).count ≤ conf.maxProducers
  slots_eq : ∀ i, (s.registry pages).slots i =
    if i < (s.registry pages).count then some i else none
  binding : ∀ i < (s.registry pages).count,
    (s.producer (.pooled pages i)).binding = 
      (some (pages, i / 64), i, (1 : BitVec 64) <<< (i % 64))

/-- Every active producer is held by exactly one thread. -/
structure Holding (s : State) (pages : Pages) : Prop where
  fresh : ∀ i, (s.registry pages).count ≤ i → (s.producer (.pooled pages i)).lifecycle = .active
  held : ∀ t i, s.tls t pages = some i →
    i < (s.registry pages).count ∧ (s.producer (.pooled pages i)).lifecycle = .active
  unique : ∀ t t' i, s.tls t pages = some i → s.tls t' pages = some i → t = t'
  owned : ∀ i < (s.registry pages).count,
    (s.producer (.pooled pages i)).lifecycle = .active → ∃ t, s.tls t pages = some i

/-- Every free producer is in the free list or being pushed. -/
structure Freeing (conf : Sealed) (s : State) (pages : Pages) : Prop where
  visiting : ∀ round resume i stage, s.consumer = .visit round resume (.pooled pages i) stage →
    i < (s.registry pages).count
  pushing : ∀ i, Pushing s pages i → (s.producer (.pooled pages i)).lifecycle = .free
  freeList : ∃ list, FreeList conf s pages list

structure RegistrySound (conf : Sealed) (s : State) (pages : Pages) : Prop where
  layout : Layout conf s pages
  holding : Holding s pages
  freeing : Freeing conf s pages

/-- What a thread relies on where it stands. -/
structure PcSound (conf : Sealed) (s : State) (t : ℕ) (pc : ThreadPc) : Prop where
  holds : ∀ pages i, pc.producer? = some (.pooled pages i) → s.tls t pages = some i
  owns : conf.diagnostic = true → ∀ pages, pc.producer? = some (.single pages) →
    (s.producer (.single pages)).owner = some t
  acquiring : ∀ pages purpose, pc = .acquire pages purpose → s.tls t pages = none
  publishing : ∀ pages i, pc = .publishRetired pages i → i < (s.registry pages).count

/-- The stages after an empty second look. -/
def Stage.Leaving (stage : Stage) : Prop :=
  stage = .isRetired ∨ stage = .markFree ∨ stage = .pushFree

/-- The ownership invariant. -/
structure Ownership (conf : Sealed) (s : State) : Prop where
  registry : ∀ pages, RegistrySound conf s pages
  pc : ∀ t, PcSound conf s t (s.pc t)
  leaving : ∀ round resume pages stage, s.consumer = .visit round resume (.single pages) stage →
    ¬ stage.Leaving

variable {conf : Sealed} {s s' : State} {t : ℕ}

theorem ownership_started (conf : Sealed) (level : ℕ → LogLevel) :
    Ownership conf (State.started conf level) where
  registry pages :=
    { layout := ⟨rfl, Nat.zero_le _, fun i => by simp [State.started], nofun⟩
      holding := ⟨fun _ _ => rfl, nofun, nofun, nofun⟩
      freeing := ⟨nofun, nofun, [], .nil, List.nodup_nil, nofun, nofun, nofun⟩ }
  pc t := ⟨nofun, nofun, nofun, nofun⟩
  leaving := nofun

/-! ## Frames -/

theorem role_setProducer {p : ProducerId} {value : Producer}
    (h : value.role = (s.producer p).role) (q : ProducerId) :
    ((s.setProducer p value).producer q).role = (s.producer q).role := by
  apply State.setProducer_part Producer.role
  rintro rfl
  exact h

theorem role_eq {p p' : Producer} (h : p'.role = p.role) :
    p'.binding = p.binding ∧ p'.nextFreeIndex = p.nextFreeIndex ∧ p'.lifecycle = p.lifecycle := by
  simpa [Producer.role] using h

theorem extent_eq {registry registry' : Registry} (h : registry'.extent = registry.extent) :
    registry'.size = registry.size ∧ registry'.slots = registry.slots ∧
      registry'.count = registry.count := by
  simpa [Registry.extent] using h

section Congr

variable {pages : Pages}

theorem Layout.congr (h : Layout conf s pages)
    (hextent : (s'.registry pages).extent = (s.registry pages).extent)
    (hbinding : ∀ i, (s'.producer (.pooled pages i)).binding =
      (s.producer (.pooled pages i)).binding) : Layout conf s' pages := by
  obtain ⟨hsize, hslots, hcount⟩ := extent_eq hextent
  exact
    { size_eq := by rw [hsize, hcount, h.size_eq]
      le_max := by rw [hcount]; exact h.le_max
      slots_eq := fun i => by rw [hslots, hcount, h.slots_eq]
      binding := fun i hi => by rw [hbinding]; exact h.binding i (hcount ▸ hi) }

/-- Holding depends on which producers are active. -/
theorem Holding.congr (h : Holding s pages)
    (hcount : (s'.registry pages).count = (s.registry pages).count)
    (hactive : ∀ i, (s'.producer (.pooled pages i)).lifecycle = .active ↔
      (s.producer (.pooled pages i)).lifecycle = .active)
    (htls : ∀ t, s'.tls t pages = s.tls t pages) : Holding s' pages where
  fresh i hi := (hactive i).mpr (h.fresh i (hcount ▸ hi))
  held t i ht := by
    rw [hcount, hactive]
    exact h.held t i (htls t ▸ ht)
  unique t t' i ht ht' := h.unique t t' i (htls t ▸ ht) (htls t' ▸ ht')
  owned i hi ha := by
    obtain ⟨t, ht⟩ := h.owned i (hcount ▸ hi) ((hactive i).mp ha)
    exact ⟨t, (htls t).trans ht⟩

/-- Freeing depends on which producers are free and on their links. -/
theorem Freeing.congr (h : Freeing conf s pages)
    (hcount : (s.registry pages).count ≤ (s'.registry pages).count)
    (hhead : (s'.registry pages).freeHead = (s.registry pages).freeHead)
    (hlink : ∀ i, (s'.producer (.pooled pages i)).nextFreeIndex =
      (s.producer (.pooled pages i)).nextFreeIndex)
    (hfree : ∀ i, (s'.producer (.pooled pages i)).lifecycle = .free ↔
      (s.producer (.pooled pages i)).lifecycle = .free)
    (hvisit : ∀ round resume i stage, s'.consumer = .visit round resume (.pooled pages i) stage →
      i < (s.registry pages).count)
    (hpush : ∀ i, Pushing s' pages i ↔ Pushing s pages i) : Freeing conf s' pages := by
  obtain ⟨list, hlist⟩ := h.freeList
  refine
    { visiting := fun round resume i stage hv =>
        Nat.lt_of_lt_of_le (hvisit round resume i stage hv) hcount
      pushing := fun i hp => (hfree i).mpr (h.pushing i ((hpush i).mp hp))
      freeList := ⟨list, ?_, hlist.nodup, ?_, ?_, ?_⟩ }
  · rw [FreeChain, hhead]
    exact hlist.chain.congr fun j _ => hlink j
  · intro i hi
    obtain ⟨hlt, hf⟩ := hlist.sound i hi
    exact ⟨Nat.lt_of_lt_of_le hlt hcount, (hfree i).mpr hf⟩
  · intro i hf
    rw [hpush]
    exact hlist.complete i ((hfree i).mp hf)
  · intro i hp
    exact hlist.apart i ((hpush i).mp hp)

/-- Steps that keep the roles, the shape of the registry and the holders keep its soundness, as
long as the consumer does not begin a push. -/
theorem RegistrySound.congr (h : RegistrySound conf s pages)
    (hrole : ∀ i, (s'.producer (.pooled pages i)).role = (s.producer (.pooled pages i)).role)
    (hshape : (s'.registry pages).shape = (s.registry pages).shape)
    (htls : ∀ t, s'.tls t pages = s.tls t pages)
    (hvisit : ∀ round resume i stage, s'.consumer = .visit round resume (.pooled pages i) stage →
      i < (s.registry pages).count)
    (hpush : ∀ i, Pushing s' pages i ↔ Pushing s pages i) : RegistrySound conf s' pages := by
  obtain ⟨hextent, hhead⟩ := Prod.mk.inj hshape
  have hcount := (extent_eq hextent).2.2
  have hfields := fun i => role_eq (hrole i)
  exact
    { layout := h.layout.congr hextent fun i => (hfields i).1
      holding := h.holding.congr hcount (fun i => by rw [(hfields i).2.2]) htls
      freeing := h.freeing.congr (Nat.le_of_eq hcount.symm) hhead (fun i => (hfields i).2.1)
        (fun i => by rw [(hfields i).2.2]) hvisit hpush }

end Congr

theorem PcSound.congr {pc : ThreadPc} (h : PcSound conf s t pc) (htls : s'.tls t = s.tls t)
    (howner : ∀ pages, (s.producer (.single pages)).owner = some t →
      (s'.producer (.single pages)).owner = some t)
    (hcount : ∀ pages, (s.registry pages).count ≤ (s'.registry pages).count) :
    PcSound conf s' t pc where
  holds pages i hp := by rw [htls]; exact h.holds pages i hp
  owns hd pages hp := howner pages (h.owns hd pages hp)
  acquiring pages purpose hp := by rw [htls]; exact h.acquiring pages purpose hp
  publishing pages i hp := Nat.lt_of_lt_of_le (h.publishing pages i hp) (hcount pages)

theorem owner_setProducer {p : ProducerId} {value : Producer}
    (h : value.owner = (s.producer p).owner) (q : ProducerId) :
    ((s.setProducer p value).producer q).owner = (s.producer q).owner := by
  apply State.setProducer_part Producer.owner
  rintro rfl
  exact h

section PublishReadyBit

variable (s) (p : ProducerId)

theorem publishReadyBit_shape (pages : Pages) :
    ((s.publishReadyBit p).registry pages).shape = (s.registry pages).shape := by
  unfold State.publishReadyBit
  split
  · rfl
  · rename_i pages' word _
    by_cases hp : pages = pages'
    · subst hp
      simp [State.setRegistry, Registry.shape, Registry.extent]
    · simp [State.setRegistry, Function.update_of_ne hp]

end PublishReadyBit

/-- A pc that neither enters the registry nor announces a retirement. -/
def ThreadPc.Plain (pc : ThreadPc) : Prop :=
  (∀ pages purpose, pc ≠ .acquire pages purpose) ∧ ∀ pages i, pc ≠ .publishRetired pages i

theorem pcSound_plain {next : ThreadPc} (hplain : next.Plain) (hp : next.producer? = none) :
    PcSound conf s t next :=
  ⟨fun _ _ hi => by simp [hp] at hi, fun _ _ hi => by simp [hp] at hi,
    fun _ _ heq => absurd heq (hplain.1 _ _), fun _ _ heq => absurd heq (hplain.2 _ _)⟩

theorem PcSound.carry {pc next : ThreadPc} (h : PcSound conf s t pc) (hplain : next.Plain)
    (hp : next.producer? = none ∨ next.producer? = pc.producer?) : PcSound conf s t next where
  holds pages i hi := by
    rcases hp with hp | hp
    · simp [hp] at hi
    · exact h.holds pages i (hp ▸ hi)
  owns hd pages hi := by
    rcases hp with hp | hp
    · simp [hp] at hi
    · exact h.owns hd pages (hp ▸ hi)
  acquiring pages purpose heq := absurd heq (hplain.1 pages purpose)
  publishing pages i heq := absurd heq (hplain.2 pages i)

theorem PcSound.pooled {next : ThreadPc} {pages : Pages} {i : ℕ} (hplain : next.Plain)
    (hp : next.producer? = none ∨ next.producer? = some (.pooled pages i))
    (htls : s.tls t pages = some i) : PcSound conf s t next where
  holds pages' i' hi := by
    rcases hp with hp | hp
    · simp [hp] at hi
    · simp only [hp, Option.some.injEq, ProducerId.pooled.injEq] at hi
      obtain ⟨rfl, rfl⟩ := hi
      exact htls
  owns hd pages' hi := by
    rcases hp with hp | hp <;> simp [hp] at hi
  acquiring pages purpose heq := absurd heq (hplain.1 pages purpose)
  publishing pages i heq := absurd heq (hplain.2 pages i)

theorem plain_purpose_next (purpose : Purpose) (pages : Pages) (index : ℕ) :
    (purpose.next pages index).Plain := by
  cases purpose <;> cases pages <;> exact ⟨nofun, nofun⟩

theorem producer_purpose_next (purpose : Purpose) (pages : Pages) (index : ℕ) :
    (purpose.next pages index).producer? = none ∨
      (purpose.next pages index).producer? = some (.pooled pages index) := by
  cases purpose with
  | log channel => exact .inr rfl
  | prewarm => cases pages <;> exact .inl rfl

theorem pcSound_entry (t : ℕ) (call : Call) : PcSound conf s t (call.entry s t) := by
  cases call with
  | release pages =>
      simp only [Call.entry]
      cases htls : s.tls t pages with
      | none => exact pcSound_plain (by simp [ThreadPc.Plain]) rfl
      | some index => exact .pooled (by simp [ThreadPc.Plain]) (.inr rfl) htls
  | _ => exact pcSound_plain (by simp [Call.entry, ThreadPc.Plain]) rfl

theorem pcSound_move {pc next : ThreadPc} (h : PcSound conf s t pc)
    (hmove : Move conf s t pc next) : PcSound conf s t next := by
  cases hmove with
  | obtainTls htls => exact .pooled (by simp [ThreadPc.Plain]) (.inr rfl) htls
  | obtainNone htls | prewarmAcquire htls =>
      refine ⟨by simp [ThreadPc.producer?], by simp [ThreadPc.producer?], ?_, by simp⟩
      rintro _ _ ⟨⟩
      exact htls
  | obtainSingle hdiag =>
      refine ⟨by simp [ThreadPc.producer?], fun hd => ?_, by simp, by simp⟩
      simp [hdiag] at hd
  | assertOwned howner =>
      refine ⟨by simp [ThreadPc.producer?], fun _ _ hp => ?_, by simp, by simp⟩
      obtain ⟨⟩ := hp
      exact howner
  | drop => exact h.carry (by simp [ThreadPc.Plain]) (.inr rfl)
  | _ => exact pcSound_plain (by simp [ThreadPc.Plain]) rfl

/-! ## Steps of a thread -/

/-- A thread step that keeps the roles, the registries and the holders. -/
theorem Ownership.frame (h : Ownership conf s)
    (hrole : ∀ p, (s'.producer p).role = (s.producer p).role)
    (hshape : ∀ pages, (s'.registry pages).shape = (s.registry pages).shape)
    (htls : s'.tls = s.tls) (hconsumer : s'.consumer = s.consumer)
    (howner : ∀ pages other, (s.producer (.single pages)).owner = some other →
      (s'.producer (.single pages)).owner = some other)
    (hpc : ∀ other, other ≠ t → s'.pc other = s.pc other)
    (hnew : PcSound conf s t (s'.pc t)) : Ownership conf s' where
  registry pages :=
    (h.registry pages).congr (fun i => hrole _) (hshape pages) (fun t => by rw [htls])
      (fun round resume i stage hv => (h.registry pages).freeing.visiting round resume i stage
        (hconsumer ▸ hv))
      (fun i => by rw [Pushing, Pushing, hconsumer])
  pc other := by
    have hcount : ∀ pages, (s.registry pages).count ≤ (s'.registry pages).count := by
      intro pages
      exact Nat.le_of_eq (extent_eq (Prod.mk.inj (hshape pages)).1).2.2.symm
    have hold : PcSound conf s other (s'.pc other) := by
      by_cases heq : other = t
      · rw [heq]
        exact hnew
      · rw [hpc other heq]
        exact h.pc other
    exact hold.congr (by rw [htls]) (fun pages => howner pages other) hcount
  leaving := by
    rw [hconsumer]
    exact h.leaving

/-- A thread step that keeps producers, registries and holders. -/
theorem Ownership.local (h : Ownership conf s) (hproducer : s'.producer = s.producer)
    (hregistry : s'.registry = s.registry) (htls : s'.tls = s.tls)
    (hconsumer : s'.consumer = s.consumer) {next : ThreadPc}
    (hpc : s'.pc = Function.update s.pc t next) (hnew : PcSound conf s t next) :
    Ownership conf s' := by
  refine h.frame (t := t) (fun p => by rw [hproducer]) (fun pages => by rw [hregistry]) htls
    hconsumer (fun pages other ho => by rw [hproducer]; exact ho) (fun other hne => ?_) ?_
  · rw [hpc, Function.update_of_ne hne]
  · rw [hpc, Function.update_self]
    exact hnew

/-- A thread step that changes a producer outside its role. -/
theorem Ownership.work (h : Ownership conf s) {p : ProducerId} {value : Producer}
    {next : ThreadPc} (hrole : value.role = (s.producer p).role)
    (howner : value.owner = (s.producer p).owner) (hnew : PcSound conf s t next) :
    Ownership conf ((s.setProducer p value).setPc t next) := by
  refine h.frame (t := t) (role_setProducer hrole) (fun pages => rfl) rfl rfl ?_
    (fun other hne => Function.update_of_ne hne ..) ?_
  · intro pages other ho
    exact (owner_setProducer howner _).trans ho
  · simpa [State.setPc] using hnew

theorem Ownership.signal (h : Ownership conf s) (p : ProducerId) {next : ThreadPc}
    (hnew : PcSound conf s t next) : Ownership conf ((s.publishReadyBit p).setPc t next) := by
  refine h.frame (t := t) (fun q => ?_) (publishReadyBit_shape s p) State.publishReadyBit_tls
    State.publishReadyBit_consumer (fun pages other ho => ?_) (fun other hne => ?_) ?_
  · exact congrArg (fun f => (f q).role) State.publishReadyBit_producer
  · exact (congrArg (fun f => (f (.single pages)).owner) State.publishReadyBit_producer).trans ho
  · simp [State.setPc, Function.update_of_ne hne]
  · simpa [State.setPc] using hnew

theorem Ownership.claim (h : Ownership conf s) {channel : ℕ} {pages : Pages}
    (howner : (s.producer (.single pages)).owner = none) :
    Ownership conf ((s.setProducer (.single pages)
      { s.producer (.single pages) with owner := some t }).setPc t
        (.produce channel (.single pages))) := by
  have hfree : ∀ pages' other, (s.producer (.single pages')).owner = some other →
      pages' ≠ pages := by
    rintro _ other ho rfl
    simp [howner] at ho
  have hrole : ∀ p, ((s.setProducer (.single pages)
      { s.producer (.single pages) with owner := some t }).producer p).role =
        (s.producer p).role := role_setProducer rfl
  refine
    { registry := fun pages' => (h.registry pages').congr (fun i => hrole _) rfl
        (fun _ => rfl) (h.registry pages').freeing.visiting (fun _ => Iff.rfl)
      pc := fun other => ?_
      leaving := h.leaving }
  by_cases heq : other = t
  · subst heq
    rw [State.setPc_pc_self]
    refine ⟨nofun, fun _ pages' hp => ?_, nofun, nofun⟩
    obtain ⟨⟩ := hp
    exact congrArg Producer.owner (State.setProducer_producer_self _)
  · rw [State.setPc_pc_of_ne _ heq]
    refine (h.pc other).congr rfl (fun pages' ho => ?_) (fun _ => Nat.le_refl _)
    have hne : ProducerId.single pages' ≠ .single pages := by
      simpa using hfree pages' other ho
    exact (congrArg Producer.owner (State.setProducer_producer_of_ne _ hne)).trans ho

end Unlog.Handoff
