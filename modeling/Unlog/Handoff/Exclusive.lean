import Unlog.Handoff.Recycle

/-! # Exclusive ownership in every reachable state -/

namespace Unlog.Handoff

open Library

variable {conf : Sealed} {s s' : State} {t : ℕ}

/-! ## Steps of a thread that change a registry or a holder -/

section Special

variable {pages : Pages} {purpose : Purpose} {index : ℕ}

/-- A thread step that changes one registry and what the thread holds of it. -/
theorem Ownership.touch (h : Ownership conf s) (hsound : RegistrySound conf s' pages)
    (hproducer : ∀ p, (∀ i, p ≠ .pooled pages i) → s'.producer p = s.producer p)
    (hregistry : ∀ pages', pages' ≠ pages → s'.registry pages' = s.registry pages')
    (hcount : (s.registry pages).count ≤ (s'.registry pages).count)
    (htls : ∀ other pages', other ≠ t ∨ pages' ≠ pages →
      s'.tls other pages' = s.tls other pages')
    (hconsumer : s'.consumer = s.consumer)
    (hpc : ∀ other, other ≠ t → s'.pc other = s.pc other)
    (hnew : PcSound conf s' t (s'.pc t)) : Ownership conf s' where
  registry pages' := by
    by_cases hp : pages' = pages
    · rw [hp]
      exact hsound
    · refine (h.registry pages').congr (fun i => ?_) (by rw [hregistry pages' hp])
        (fun other => htls other pages' (.inr hp)) ?_ fun i => by rw [Pushing, Pushing, hconsumer]
      · rw [hproducer _ (by simp [hp])]
      · rw [hconsumer]
        exact (h.registry pages').freeing.visiting
  pc other := by
    by_cases heq : other = t
    · rw [heq]
      exact hnew
    · rw [hpc other heq]
      refine (h.pc other).congr (funext fun pages' => htls other pages' (.inl heq))
        (fun pages' ho => ?_) fun pages' => ?_
      · rw [hproducer _ (by simp)]
        exact ho
      · by_cases hp : pages' = pages
        · rw [hp]
          exact hcount
        · exact Nat.le_of_eq (by rw [hregistry pages' hp])
  leaving := by
    rw [hconsumer]
    exact h.leaving

theorem Ownership.recycle (h : Ownership conf s) (hpc : s.pc t = .acquire pages purpose)
    (hhead : (s.registry pages).freeHead ≠ conf.maxProducers)
    (hslot : (s.registry pages).slots (s.registry pages).freeHead = some index) :
    Ownership conf ((((s.setRegistry pages { s.registry pages with
      freeHead := (s.producer (.pooled pages index)).nextFreeIndex }).setProducer
        (.pooled pages index) ((s.producer (.pooled pages index)).reactivate conf)).setTls t
          pages (some index)).setPc t (purpose.next pages index)) := by
  have hfree := (h.registry pages).head_free hhead hslot
  obtain ⟨layout, holding, freeing⟩ := h.registry pages
  obtain ⟨hindex, hlt⟩ := layout.slot_eq hslot
  have hunheld : ∀ other, s.tls other pages ≠ some index := by
    intro other ho
    have hactive := (holding.held other _ ho).2
    rw [hfree] at hactive
    contradiction
  generalize hs' : (((s.setRegistry pages { s.registry pages with
    freeHead := (s.producer (.pooled pages index)).nextFreeIndex }).setProducer
      (.pooled pages index) ((s.producer (.pooled pages index)).reactivate conf)).setTls t
        pages (some index)).setPc t (purpose.next pages index) = s'
  have hregistry : s'.registry pages = { s.registry pages with
      freeHead := (s.producer (.pooled pages index)).nextFreeIndex } := by
    subst hs'
    exact State.setRegistry_registry_self _
  have hnew : s'.producer (.pooled pages index) =
      (s.producer (.pooled pages index)).reactivate conf := by
    subst hs'
    exact State.setProducer_producer_self _
  have hother : ∀ p, p ≠ .pooled pages index → s'.producer p = s.producer p := by
    subst hs'
    exact fun p hp => State.setProducer_producer_of_ne _ hp
  have hpooled : ∀ i, i ≠ index → s'.producer (.pooled pages i) = s.producer (.pooled pages i) :=
    fun i hi => hother _ (by simpa using hi)
  have htls : s'.tls t pages = some index := by
    subst hs'
    exact State.setTls_tls_self _
  have htls' : ∀ other pages', other ≠ t ∨ pages' ≠ pages →
      s'.tls other pages' = s.tls other pages' := by
    subst hs'
    exact fun other pages' ho => State.setTls_tls_of_ne _ ho
  have hcount : (s'.registry pages).count = (s.registry pages).count := by rw [hregistry]
  have hconsumer : s'.consumer = s.consumer := by
    subst hs'
    rfl
  refine h.touch (t := t)
    { layout := layout.congr (by rw [hregistry]; rfl) fun i => ?_
      holding := holding.grant ((h.pc t).acquiring pages purpose hpc) (Nat.le_of_eq hcount.symm)
        (.inl (Nat.le_of_eq hcount)) (by omega) hunheld (by rw [hnew]; rfl)
        (fun i hi => by rw [hpooled i hi]) htls fun other ho => htls' other pages (.inl ho)
      freeing := freeing.recycle hhead hindex.symm hcount (by rw [hregistry])
        (by rw [hnew]; rfl) hpooled hconsumer }
    (fun p hp => hother p (hp index)) ?_ (Nat.le_of_eq hcount.symm) htls' hconsumer ?_ ?_
  · by_cases hi : i = index
    · rw [hi, hnew]
      rfl
    · rw [hpooled i hi]
  · subst hs'
    exact fun pages' hp => State.setRegistry_registry_of_ne _ hp
  · subst hs'
    exact fun other ho => State.setPc_pc_of_ne _ ho
  · have hpc' : s'.pc t = purpose.next pages index := by
      subst hs'
      exact State.setPc_pc_self _
    rw [hpc']
    exact .pooled (plain_purpose_next _ _ _) (producer_purpose_next _ _ _) htls

theorem Ownership.create (h : Ownership conf s) (hpc : s.pc t = .acquire pages purpose)
    (hsize : (s.registry pages).size < conf.maxProducers) :
    Ownership conf ((((s.setRegistry pages { s.registry pages with
      size := (s.registry pages).size + 1
      slots := Function.update (s.registry pages).slots (s.registry pages).size
        (some (s.registry pages).size)
      count := (s.registry pages).size + 1 }).setProducer
        (.pooled pages (s.registry pages).size)
        ((s.producer (.pooled pages (s.registry pages).size)).bindActiveWord pages
          (s.registry pages).size)).setTls t pages (some (s.registry pages).size)).setPc t
            (purpose.next pages (s.registry pages).size)) := by
  obtain ⟨layout, holding, freeing⟩ := h.registry pages
  rw [layout.size_eq] at hsize ⊢
  generalize hs' : (((s.setRegistry pages { s.registry pages with
    size := (s.registry pages).count + 1
    slots := Function.update (s.registry pages).slots (s.registry pages).count
      (some (s.registry pages).count)
    count := (s.registry pages).count + 1 }).setProducer
      (.pooled pages (s.registry pages).count)
      ((s.producer (.pooled pages (s.registry pages).count)).bindActiveWord pages
        (s.registry pages).count)).setTls t pages (some (s.registry pages).count)).setPc t
          (purpose.next pages (s.registry pages).count) = s'
  have hregistry : s'.registry pages = { s.registry pages with
      size := (s.registry pages).count + 1
      slots := Function.update (s.registry pages).slots (s.registry pages).count
        (some (s.registry pages).count)
      count := (s.registry pages).count + 1 } := by
    subst hs'
    exact State.setRegistry_registry_self _
  have hnew : s'.producer (.pooled pages (s.registry pages).count) =
      (s.producer (.pooled pages (s.registry pages).count)).bindActiveWord pages
        (s.registry pages).count := by
    subst hs'
    exact State.setProducer_producer_self _
  have hother : ∀ p, p ≠ .pooled pages (s.registry pages).count →
      s'.producer p = s.producer p := by
    subst hs'
    exact fun p hp => State.setProducer_producer_of_ne _ hp
  have hpooled : ∀ i, i ≠ (s.registry pages).count →
      s'.producer (.pooled pages i) = s.producer (.pooled pages i) :=
    fun i hi => hother _ (by simpa using hi)
  have htls : s'.tls t pages = some (s.registry pages).count := by
    subst hs'
    exact State.setTls_tls_self _
  have htls' : ∀ other pages', other ≠ t ∨ pages' ≠ pages →
      s'.tls other pages' = s.tls other pages' := by
    subst hs'
    exact fun other pages' ho => State.setTls_tls_of_ne _ ho
  have hcount : (s'.registry pages).count = (s.registry pages).count + 1 := by rw [hregistry]
  have hconsumer : s'.consumer = s.consumer := by
    subst hs'
    rfl
  -- binding a fresh producer changes neither its lifecycle nor its link
  have hsame : ∀ i, (s'.producer (.pooled pages i)).lifecycle =
        (s.producer (.pooled pages i)).lifecycle ∧
      (s'.producer (.pooled pages i)).nextFreeIndex =
        (s.producer (.pooled pages i)).nextFreeIndex := by
    intro i
    by_cases hi : i = (s.registry pages).count
    · rw [hi, hnew]
      exact ⟨rfl, rfl⟩
    · rw [hpooled i hi]
      exact ⟨rfl, rfl⟩
  have hunheld : ∀ other, s.tls other pages ≠ some (s.registry pages).count := by
    intro other ho
    exact absurd (holding.held other _ ho).1 (Nat.lt_irrefl _)
  refine h.touch (t := t)
    { layout := layout.create hsize hregistry hnew hpooled
      holding := holding.grant ((h.pc t).acquiring pages purpose hpc) (by omega)
        (.inr ⟨hcount, rfl⟩) (by omega) hunheld
        ((hsame _).1.trans (holding.fresh _ (Nat.le_refl _))) (fun i _ => (hsame i).1) htls
        fun other ho => htls' other pages (.inl ho)
      freeing := freeing.congr (by omega) (by rw [hregistry]) (fun i => (hsame i).2)
        (fun i => by rw [(hsame i).1]) (by rw [hconsumer]; exact freeing.visiting)
        fun i => by rw [Pushing, Pushing, hconsumer] }
    (fun p hp => hother p (hp _)) ?_ (by omega) htls' hconsumer ?_ ?_
  · subst hs'
    exact fun pages' hp => State.setRegistry_registry_of_ne _ hp
  · subst hs'
    exact fun other ho => State.setPc_pc_of_ne _ ho
  · have hpc' : s'.pc t = purpose.next pages (s.registry pages).count := by
      subst hs'
      exact State.setPc_pc_self _
    rw [hpc']
    exact .pooled (plain_purpose_next _ _ _) (producer_purpose_next _ _ _) htls

theorem Ownership.retire (h : Ownership conf s) (hpc : s.pc t = .retire pages index)
    (hactive : (s.producer (.pooled pages index)).lifecycle = .active) :
    Ownership conf (((s.setProducer (.pooled pages index)
      { s.producer (.pooled pages index) with lifecycle := .retired }).setTls t pages
        none).setPc t (.publishRetired pages index)) := by
  obtain ⟨layout, holding, freeing⟩ := h.registry pages
  have hheld : s.tls t pages = some index := (h.pc t).holds pages index (by rw [hpc]; rfl)
  generalize hs' : ((s.setProducer (.pooled pages index)
    { s.producer (.pooled pages index) with lifecycle := .retired }).setTls t pages
      none).setPc t (.publishRetired pages index) = s'
  have hnew : s'.producer (.pooled pages index) =
      { s.producer (.pooled pages index) with lifecycle := .retired } := by
    subst hs'
    exact State.setProducer_producer_self _
  have hother : ∀ p, p ≠ .pooled pages index → s'.producer p = s.producer p := by
    subst hs'
    exact fun p hp => State.setProducer_producer_of_ne _ hp
  have hpooled : ∀ i, i ≠ index → s'.producer (.pooled pages i) = s.producer (.pooled pages i) :=
    fun i hi => hother _ (by simpa using hi)
  have htls : s'.tls t pages = none := by
    subst hs'
    exact State.setTls_tls_self _
  have htls' : ∀ other pages', other ≠ t ∨ pages' ≠ pages →
      s'.tls other pages' = s.tls other pages' := by
    subst hs'
    exact fun other pages' ho => State.setTls_tls_of_ne _ ho
  have hregistry : s'.registry = s.registry := by
    subst hs'
    rfl
  have hconsumer : s'.consumer = s.consumer := by
    subst hs'
    rfl
  refine h.touch (t := t)
    { layout := layout.congr (by rw [hregistry]) fun i => ?_
      holding := holding.retire hheld (by rw [hregistry]) (by rw [hnew])
        (fun i hi => by rw [hpooled i hi]) htls fun other ho => htls' other pages (.inl ho)
      freeing := freeing.congr (Nat.le_of_eq (by rw [hregistry])) (by rw [hregistry])
        (fun i => ?_) (fun i => ?_)
        (by rw [hconsumer]; exact freeing.visiting)
        fun i => by rw [Pushing, Pushing, hconsumer] }
    (fun p hp => hother p (hp index)) (fun pages' _ => by rw [hregistry])
    (Nat.le_of_eq (by rw [hregistry])) htls' hconsumer ?_ ?_
  · by_cases hi : i = index
    · rw [hi, hnew]
      rfl
    · rw [hpooled i hi]
  · by_cases hi : i = index
    · rw [hi, hnew]
    · rw [hpooled i hi]
  · by_cases hi : i = index
    · rw [hi, hnew, hactive]
      simp
    · rw [hpooled i hi]
  · subst hs'
    exact fun other ho => State.setPc_pc_of_ne _ ho
  · have hpc' : s'.pc t = .publishRetired pages index := by
      subst hs'
      exact State.setPc_pc_self _
    rw [hpc']
    refine ⟨by simp [ThreadPc.producer?], by simp [ThreadPc.producer?], by simp,
      fun pages' i heq => ?_⟩
    obtain ⟨rfl, rfl⟩ := by simpa using heq
    rw [hregistry]
    exact (holding.held t index hheld).1

end Special

theorem plain_afterPublish (record : RecordId) (truncated : Bool) :
    (afterPublish conf record truncated).Plain := by
  unfold afterPublish
  split <;> exact ⟨nofun, nofun⟩

theorem producer_afterPublish (record : RecordId) (truncated : Bool) :
    (afterPublish conf record truncated).producer? = some record.producer := by
  unfold afterPublish
  split <;> rfl

theorem plain_afterMark (record : RecordId) : (afterMark record).Plain := by
  unfold afterMark
  split <;> exact ⟨nofun, nofun⟩

theorem producer_afterMark (record : RecordId) :
    (afterMark record).producer? = none ∨
      (afterMark record).producer? = some record.producer := by
  unfold afterMark
  split
  · exact .inl rfl
  · exact .inr rfl

/-- Every thread step keeps the ownership invariant. -/
theorem Ownership.threadStep (h : Ownership conf s) (hstep : ThreadStep conf s t s') :
    Ownership conf s' := by
  have hpcs := h.pc t
  cases hstep with
  | call call hidle => exact h.local rfl rfl rfl rfl rfl (pcSound_entry t call)
  | move hmove => exact h.local rfl rfl rfl rfl rfl (pcSound_move hpcs hmove)
  | claimOwner hpc howner => exact h.claim howner
  | recycle hpc hhead hslot => exact h.recycle hpc hhead hslot
  | create hpc hhead hsize => exact h.create hpc hsize
  | publish truncated hpc =>
      refine h.work rfl rfl (hpcs.carry (plain_afterPublish _ _) (.inr ?_))
      rw [producer_afterPublish, hpc]
      rfl
  | countDropped hpc => exact h.work rfl rfl (pcSound_plain ⟨nofun, nofun⟩ rfl)
  | countEmitted hpc =>
      rename_i record truncated
      refine h.work rfl rfl (hpcs.carry ?_ (.inr ?_))
      · cases truncated <;> exact ⟨nofun, nofun⟩
      · rw [hpc]
        cases truncated <;> rfl
  | countTruncated hpc => exact h.work rfl rfl (hpcs.carry ⟨nofun, nofun⟩ (.inr (by rw [hpc]; rfl)))
  | markWon hpc hflag =>
      refine h.work rfl rfl (hpcs.carry (plain_afterMark _) ?_)
      rw [hpc]
      exact producer_afterMark _
  | markLost hpc hflag => exact h.local rfl rfl rfl rfl rfl (pcSound_plain ⟨nofun, nofun⟩ rfl)
  | publishBit hpc => exact h.signal _ (pcSound_plain ⟨nofun, nofun⟩ rfl)
  | wake hpc =>
      rename_i waker
      cases waker <;>
        exact h.local rfl rfl rfl rfl rfl (pcSound_plain ⟨nofun, nofun⟩ rfl)
  | retire hpc hactive => exact h.retire hpc hactive
  | retireLost hpc hactive =>
      have hheld := hpcs.holds _ _ (by rw [hpc]; rfl)
      exact absurd ((h.registry _).holding.held t _ hheld).2 hactive
  | publishRetired hpc => exact h.signal _ (pcSound_plain ⟨nofun, nofun⟩ rfl)
  | _ => exact h.local rfl rfl rfl rfl rfl (pcSound_plain ⟨nofun, nofun⟩ rfl)

/-! ## Steps of the consumer -/

/-- The visit the consumer is in. -/
def ConsumerPc.visit? : ConsumerPc → Option (ProducerId × Stage)
  | .visit _ _ p stage => some (p, stage)
  | _ => none

theorem pushing_iff {pages : Pages} {index : ℕ} :
    Pushing s pages index ↔ s.consumer.visit? = some (.pooled pages index, .pushFree) := by
  constructor
  · rintro ⟨round, resume, hc⟩
    rw [hc]
    rfl
  · intro hv
    cases hc : s.consumer with
    | visit round resume p stage =>
        simp only [hc, ConsumerPc.visit?, Option.some.injEq, Prod.mk.injEq] at hv
        obtain ⟨rfl, rfl⟩ := hv
        exact ⟨round, resume, hc⟩
    | _ => simp [hc, ConsumerPc.visit?] at hv

/-- A visit of a registered producer, or of a single-threaded one that is not leaving. -/
def VisitSound (s : State) : ProducerId → Stage → Prop
  | .single _, stage => ¬ stage.Leaving
  | .pooled pages index, _ => index < (s.registry pages).count

theorem Ownership.visitSound (h : Ownership conf s) {p : ProducerId} {stage : Stage}
    (hv : s.consumer.visit? = some (p, stage)) : VisitSound s p stage := by
  cases hc : s.consumer with
  | visit round resume p' stage' =>
      simp only [hc, ConsumerPc.visit?, Option.some.injEq, Prod.mk.injEq] at hv
      obtain ⟨rfl, rfl⟩ := hv
      cases p' with
      | single pages => exact h.leaving round resume pages stage' hc
      | pooled pages index => exact (h.registry pages).freeing.visiting round resume index stage' hc
  | _ => simp [hc, ConsumerPc.visit?] at hv

/-- A consumer step outside the push that keeps the roles and the registries. -/
theorem Ownership.walk (h : Ownership conf s)
    (hrole : ∀ p, (s'.producer p).role = (s.producer p).role)
    (howner : ∀ p, (s'.producer p).owner = (s.producer p).owner)
    (hshape : ∀ pages, (s'.registry pages).shape = (s.registry pages).shape)
    (htls : s'.tls = s.tls) (hpc : s'.pc = s.pc)
    (hold : ∀ p stage, s.consumer.visit? = some (p, stage) → stage ≠ .pushFree)
    (hnew : ∀ p stage, s'.consumer.visit? = some (p, stage) →
      VisitSound s p stage ∧ stage ≠ .pushFree) : Ownership conf s' where
  registry pages := by
    refine (h.registry pages).congr (fun i => hrole _) (hshape pages) (fun _ => by rw [htls])
      (fun round resume i stage hv => ?_) fun i => ?_
    · exact (hnew (.pooled pages i) stage (by rw [hv]; rfl)).1
    · rw [pushing_iff, pushing_iff]
      constructor
      · exact fun hv => absurd rfl (hnew _ _ hv).2
      · exact fun hv => absurd rfl (hold _ _ hv)
  pc t := by
    rw [hpc]
    refine (h.pc t).congr (by rw [htls]) (fun pages ho => (howner _).trans ho) fun pages => ?_
    exact Nat.le_of_eq (extent_eq (Prod.mk.inj (hshape pages)).1).2.2.symm
  leaving round resume pages stage hv := (hnew (.single pages) stage (by rw [hv]; rfl)).1

theorem VisitSound.next {p : ProducerId} {stage stage' : Stage} (h : VisitSound s p stage)
    (hle : stage'.Leaving → stage.Leaving) : VisitSound s p stage' := by
  cases p with
  | single pages => exact fun hl => h (hle hl)
  | pooled pages index => exact h

theorem not_leaving_readTail : ¬ Stage.readTail.Leaving := by
  simp [Stage.Leaving]

/-- A consumer step that moves only the consumer. -/
theorem Ownership.stroll (h : Ownership conf s) {next : ConsumerPc} {out : List Event}
    {completed : ℕ} (hold : ∀ p stage, s.consumer.visit? = some (p, stage) → stage ≠ .pushFree)
    (hnew : ∀ p stage, next.visit? = some (p, stage) → VisitSound s p stage ∧ stage ≠ .pushFree) :
    Ownership conf { s with consumer := next, out := out, flushCompleted := completed } :=
  h.walk (fun _ => rfl) (fun _ => rfl) (fun _ => rfl) rfl rfl hold hnew

/-- A step inside a visit that changes the producer outside its role. -/
theorem Ownership.visit (h : Ownership conf s) {p : ProducerId} {value : Producer}
    {next : ConsumerPc} {out : List Event} (hrole : value.role = (s.producer p).role)
    (howner : value.owner = (s.producer p).owner)
    (hold : ∀ p stage, s.consumer.visit? = some (p, stage) → stage ≠ .pushFree)
    (hnew : ∀ p stage, next.visit? = some (p, stage) → VisitSound s p stage ∧ stage ≠ .pushFree) :
    Ownership conf { s.setProducer p value with consumer := next, out := out } :=
  h.walk (role_setProducer hrole) (owner_setProducer howner) (fun _ => rfl) rfl rfl hold hnew

theorem Ownership.takeWord (h : Ownership conf s) {pages : Pages} {words : ℕ → BitVec 64}
    {next : ConsumerPc} (hold : s.consumer.visit? = none) (hnew : next.visit? = none) :
    Ownership conf { s.setRegistry pages { s.registry pages with activeWords := words } with
      consumer := next } := by
  refine h.walk (fun _ => rfl) (fun _ => rfl) (fun pages' => ?_) rfl rfl
    (fun _ _ hv => by simp [hold] at hv) (fun _ _ hv => by simp [hnew] at hv)
  by_cases hp : pages' = pages
  · subst hp
    simp [State.setRegistry, Registry.shape, Registry.extent]
  · simp [State.setRegistry, Function.update_of_ne hp]

theorem Ownership.repost (h : Ownership conf s) (p : ProducerId) {next : ConsumerPc}
    (hold : ∀ p stage, s.consumer.visit? = some (p, stage) → stage ≠ .pushFree)
    (hnew : next.visit? = none) :
    Ownership conf { s.publishReadyBit p with consumer := next } := by
  refine h.walk (fun q => ?_) (fun q => ?_) (publishReadyBit_shape s p) State.publishReadyBit_tls
    State.publishReadyBit_pc hold (fun _ _ hv => by simp [hnew] at hv)
  · exact congrArg (fun f => (f q).role) State.publishReadyBit_producer
  · exact congrArg (fun f => (f q).owner) State.publishReadyBit_producer

theorem Ownership.markFree (h : Ownership conf s) {round : Round} {resume : Cursor}
    {p : ProducerId} (hc : s.consumer = .visit round resume p .markFree)
    (hretired : (s.producer p).lifecycle = .retired) :
    Ownership conf { s.setProducer p { s.producer p with lifecycle := .free } with
      consumer := .visit round resume p .pushFree } := by
  cases p with
  | single pages => exact absurd (.inr (.inl rfl)) (h.leaving round resume pages .markFree hc)
  | pooled pages index =>
      generalize hs' : ({ s.setProducer (.pooled pages index)
          { s.producer (.pooled pages index) with lifecycle := .free } with
        consumer := .visit round resume (.pooled pages index) .pushFree } : State) = s'
      have hnew : s'.producer (.pooled pages index) =
          { s.producer (.pooled pages index) with lifecycle := .free } := by
        subst hs'
        exact State.setProducer_producer_self _
      have hother : ∀ p, p ≠ .pooled pages index → s'.producer p = s.producer p := by
        subst hs'
        exact fun p hp => State.setProducer_producer_of_ne _ hp
      have hrest : s'.registry = s.registry ∧ s'.tls = s.tls ∧ s'.pc = s.pc ∧
          s'.consumer = .visit round resume (.pooled pages index) .pushFree := by
        subst hs'
        exact ⟨rfl, rfl, rfl, rfl⟩
      obtain ⟨hregistry, htls, hpc, hconsumer⟩ := hrest
      have hpushing : ∀ pages' i, ¬ Pushing s pages' i := by
        rintro pages' i ⟨round', resume', hp⟩
        rw [hc] at hp
        simp at hp
      refine
        { registry := fun pages' => ?_
          pc := fun t => ?_
          leaving := fun round' resume' pages' stage hv => by simp [hconsumer] at hv }
      · by_cases hp : pages' = pages
        · subst hp
          obtain ⟨layout, holding, freeing⟩ := h.registry pages'
          have hpooled : ∀ i, i ≠ index →
              s'.producer (.pooled pages' i) = s.producer (.pooled pages' i) :=
            fun i hi => hother _ (by simpa using hi)
          have hsame : ∀ i, (s'.producer (.pooled pages' i)).binding =
                (s.producer (.pooled pages' i)).binding ∧
              (s'.producer (.pooled pages' i)).nextFreeIndex =
                (s.producer (.pooled pages' i)).nextFreeIndex ∧
              ((s'.producer (.pooled pages' i)).lifecycle = .active ↔
                (s.producer (.pooled pages' i)).lifecycle = .active) := by
            intro i
            by_cases hi : i = index
            · rw [hi, hnew]
              simp [Producer.binding, hretired]
            · rw [hpooled i hi]
              exact ⟨rfl, rfl, Iff.rfl⟩
          exact
            { layout := layout.congr (by rw [hregistry]) fun i => (hsame i).1
              holding := holding.congr (by rw [hregistry]) (fun i => (hsame i).2.2)
                fun _ => by rw [htls]
              freeing := freeing.markFree (hpushing pages')
                (freeing.visiting round resume index .markFree hc) hretired
                (by rw [hregistry]) (fun i => (hsame i).2.1) (by rw [hnew])
                (fun i hi => by rw [hpooled i hi]) hconsumer }
        · refine (h.registry pages').congr (fun i => by rw [hother _ (by simp [hp])])
            (by rw [hregistry]) (fun _ => by rw [htls]) (fun round' resume' i stage hv => ?_)
            fun i => ?_
          · simp [hconsumer, Ne.symm hp] at hv
          · rw [pushing_iff, hconsumer]
            simp [ConsumerPc.visit?, Ne.symm hp, hpushing]
      · rw [hpc]
        refine (h.pc t).congr (by rw [htls]) (fun pages' ho => ?_) fun pages' => ?_
        · rw [hother _ (by simp)]
          exact ho
        · exact Nat.le_of_eq (by rw [hregistry])

theorem Ownership.pushFree (h : Ownership conf s) {round : Round} {resume : Cursor}
    {p : ProducerId} (hc : s.consumer = .visit round resume p .pushFree) :
    Ownership conf { (s.setProducer p { s.producer p with
        nextFreeIndex := (s.registry p.pages).freeHead }).setRegistry p.pages
          { s.registry p.pages with freeHead := (s.producer p).producerIndex } with
      consumer := .pass round resume } := by
  cases p with
  | single pages => exact absurd (.inr (.inr rfl)) (h.leaving round resume pages .pushFree hc)
  | pooled pages index =>
      simp only [ProducerId.pages]
      generalize hs' : ({ (s.setProducer (.pooled pages index) { s.producer (.pooled pages index)
          with nextFreeIndex := (s.registry pages).freeHead }).setRegistry pages
            { s.registry pages with
              freeHead := (s.producer (.pooled pages index)).producerIndex } with
        consumer := .pass round resume } : State) = s'
      have hnew : s'.producer (.pooled pages index) = { s.producer (.pooled pages index) with
          nextFreeIndex := (s.registry pages).freeHead } := by
        subst hs'
        exact State.setProducer_producer_self _
      have hother : ∀ p, p ≠ .pooled pages index → s'.producer p = s.producer p := by
        subst hs'
        exact fun p hp => State.setProducer_producer_of_ne _ hp
      have hregistry : s'.registry pages = { s.registry pages with
          freeHead := (s.producer (.pooled pages index)).producerIndex } := by
        subst hs'
        exact State.setRegistry_registry_self _
      have hregistry' : ∀ pages', pages' ≠ pages → s'.registry pages' = s.registry pages' := by
        subst hs'
        exact fun pages' hp => State.setRegistry_registry_of_ne _ hp
      have hrest : s'.tls = s.tls ∧ s'.pc = s.pc ∧ s'.consumer = .pass round resume := by
        subst hs'
        exact ⟨rfl, rfl, rfl⟩
      obtain ⟨htls, hpc, hconsumer⟩ := hrest
      have hpushing : Pushing s pages index := ⟨round, resume, hc⟩
      have honly : ∀ pages' i, Pushing s pages' i → pages' = pages := by
        rintro pages' i ⟨round', resume', hp⟩
        rw [hc] at hp
        simp only [ConsumerPc.visit.injEq, ProducerId.pooled.injEq] at hp
        exact hp.2.2.1.1.symm
      refine
        { registry := fun pages' => ?_
          pc := fun t => ?_
          leaving := fun round' resume' pages' stage hv => by simp [hconsumer] at hv }
      · by_cases hp : pages' = pages
        · subst hp
          obtain ⟨layout, holding, freeing⟩ := h.registry pages'
          have hindex := freeing.visiting round resume index .pushFree hc
          have hbound : (s.producer (.pooled pages' index)).producerIndex = index :=
            congrArg (fun binding => binding.2.1) (layout.binding index hindex)
          have hpooled : ∀ i, i ≠ index →
              s'.producer (.pooled pages' i) = s.producer (.pooled pages' i) :=
            fun i hi => hother _ (by simpa using hi)
          have hsame : ∀ i, (s'.producer (.pooled pages' i)).binding =
                (s.producer (.pooled pages' i)).binding ∧
              (s'.producer (.pooled pages' i)).lifecycle =
                (s.producer (.pooled pages' i)).lifecycle := by
            intro i
            by_cases hi : i = index
            · rw [hi, hnew]
              exact ⟨rfl, rfl⟩
            · rw [hpooled i hi]
              exact ⟨rfl, rfl⟩
          have hcount : (s'.registry pages').count = (s.registry pages').count := by
            rw [hregistry]
          have hmax := layout.le_max
          exact
            { layout := layout.congr (by rw [hregistry]; rfl) fun i => (hsame i).1
              holding := holding.congr hcount (fun i => by rw [(hsame i).2]) fun _ => by rw [htls]
              freeing := freeing.push hpushing (by omega) hindex hcount
                (by rw [hregistry, hbound]) (fun i => (hsame i).2) (by rw [hnew])
                (fun i hi => by rw [hpooled i hi]) hconsumer }
        · refine (h.registry pages').congr (fun i => by rw [hother _ (by simp [hp])])
            (by rw [hregistry' pages' hp]) (fun _ => by rw [htls])
            (fun round' resume' i stage hv => by simp [hconsumer] at hv) fun i => ?_
          rw [pushing_iff, hconsumer]
          exact ⟨nofun, fun hq => absurd (honly pages' i hq) hp⟩
      · rw [hpc]
        refine (h.pc t).congr (by rw [htls]) (fun pages' ho => ?_) fun pages' => ?_
        · rw [hother _ (by simp)]
          exact ho
        · by_cases hp : pages' = pages
          · exact Nat.le_of_eq (by rw [hp, hregistry])
          · exact Nat.le_of_eq (by rw [hregistry' pages' hp])

/-- Every consumer step keeps the ownership invariant. -/
theorem Ownership.consumerStep (h : Ownership conf s) (hstep : ConsumerStep conf s s') :
    Ownership conf s' := by
  have hvisit : ∀ {p stage}, s.consumer.visit? = some (p, stage) → VisitSound s p stage :=
    h.visitSound
  cases hstep with
  | singleVisit hc hsingle =>
      refine h.stroll (by simp [hc, ConsumerPc.visit?]) ?_
      rintro _ _ ⟨⟩
      exact ⟨not_leaving_readTail, nofun⟩
  | bitVisit hc hzero hslot =>
      refine h.stroll (by simp [hc, ConsumerPc.visit?]) ?_
      rintro _ _ ⟨⟩
      obtain ⟨rfl, hlt⟩ := (h.registry _).layout.slot_eq hslot
      exact ⟨hlt, nofun⟩
  | slotVisit hc hlt hslot =>
      refine h.stroll (by simp [hc, ConsumerPc.visit?]) ?_
      rintro _ _ ⟨⟩
      obtain ⟨rfl, hlt⟩ := (h.registry _).layout.slot_eq hslot
      exact ⟨hlt, nofun⟩
  | takeWord hc hlt => exact h.takeWord (by rw [hc]; rfl) rfl
  | passDone hc =>
      rename_i round
      refine h.stroll (by simp [hc, ConsumerPc.visit?]) ?_
      cases round with
      | final allDrained => cases allDrained <;> exact nofun
      | _ => exact nofun
  | consume hc hlt hrecord =>
      have hsound := hvisit (by rw [hc]; rfl)
      refine h.visit rfl rfl (by simp [hc, ConsumerPc.visit?]) ?_
      show ∀ p stage, s.consumer.visit? = some (p, stage) → _
      rw [hc]
      rintro _ _ ⟨⟩
      exact ⟨hsound, nofun⟩
  | readTail hc | consumed hc hle =>
      have hsound := hvisit (by rw [hc]; rfl)
      refine h.stroll (by simp [hc, ConsumerPc.visit?]) ?_
      rintro _ _ ⟨⟩
      exact ⟨hsound.next (by simp [Stage.Leaving]), nofun⟩
  | firstEmpty hc hempty | firstFilled hc hempty | secondFilled hc hempty =>
      have hsound := hvisit (by rw [hc]; rfl)
      refine h.stroll (by simp [hc, ConsumerPc.visit?]) ?_
      rintro _ _ ⟨⟩
      exact ⟨hsound.next (by simp [Stage.Leaving]), nofun⟩
  | repost hc hstage =>
      refine h.repost _ ?_ rfl
      rw [hc]
      rintro _ _ ⟨⟩
      rcases hstage with rfl | rfl <;> nofun
  | clearEnqueued hc | remarkWon hc hflag =>
      have hsound := hvisit (by rw [hc]; rfl)
      refine h.visit rfl rfl (by simp [hc, ConsumerPc.visit?]) ?_
      rintro _ _ ⟨⟩
      exact ⟨hsound.next (by simp [Stage.Leaving]), nofun⟩
  | secondEmpty hc hempty =>
      rename_i p
      have hsound := hvisit (by rw [hc]; rfl)
      refine h.stroll (by simp [hc, ConsumerPc.visit?]) ?_
      cases p with
      | single pages => exact nofun
      | pooled pages index =>
          rintro _ _ ⟨⟩
          exact ⟨hsound, nofun⟩
  | isRetired hc hretired =>
      have hsound := hvisit (by rw [hc]; rfl)
      refine h.stroll (by simp [hc, ConsumerPc.visit?]) ?_
      rintro _ _ ⟨⟩
      exact ⟨hsound.next fun _ => .inl rfl, nofun⟩
  | notRetired hc hstage hretired =>
      refine h.stroll ?_ (by simp [ConsumerPc.visit?])
      rw [hc]
      rintro _ _ ⟨⟩
      rcases hstage with rfl | rfl <;> nofun
  | markFree hc hretired => exact h.markFree hc hretired
  | pushFree hc => exact h.pushFree hc
  | sampleTicket hc | singleSkip hc | countFlush hc | countWords hc | wordsDone hc | bitsDone hc
  | slotsDone hc | remarkLost hc | startFlush hc | noFlush hc | flushSinks hc | completeFlush hc
  | stop hc | sleep hc | again hc | awake hc | finalFlush hc =>
      exact h.stroll (by simp [hc, ConsumerPc.visit?]) (by simp [ConsumerPc.visit?])

theorem ownership_step {a : Action} (h : Ownership conf s) (hstep : step conf s a = some s') :
    Ownership conf s' := by
  rcases step_cases hstep with ⟨t, hthread⟩ | hconsumer
  · exact h.threadStep hthread
  · exact h.consumerStep hconsumer

theorem ownership_of_reachable (h : (handoff conf).Reachable s) : Ownership conf s := by
  refine h.invariant ?_ fun s a s' _ hs hstep => ownership_step hs hstep
  rintro _ ⟨level, rfl⟩
  exact ownership_started conf level

/-! ## The integrity of the registries -/

/-- The producer a thread is producing into, or holds while it counts and notes its work, has
no other such thread; a single-threaded one is guarded in diagnostic builds. -/
def SoleProducer (conf : Sealed) (s : State) : Prop :=
  ∀ t t' p, (s.pc t).producer? = some p → (s.pc t').producer? = some p →
    (∀ pages, p = .single pages → conf.diagnostic = true) → t = t'

/-- Storage, slots and bindings agree; the free list is finite and without repetition; every
free producer is on it or being pushed; every active one has exactly one holder. -/
structure RegistryIntegrity (conf : Sealed) (s : State) : Prop where
  size : ∀ pages, (s.registry pages).size = (s.registry pages).count ∧
    (s.registry pages).count ≤ conf.maxProducers
  slots : ∀ pages i, (s.registry pages).slots i =
    if i < (s.registry pages).count then some i else none
  bound : ∀ pages, ∀ i < (s.registry pages).count,
    (s.producer (.pooled pages i)).producerIndex = i ∧
    (s.producer (.pooled pages i)).activeWord = some (pages, i / 64) ∧
    (s.producer (.pooled pages i)).activeBitMask = (1 : BitVec 64) <<< (i % 64)
  freeList : ∀ pages, ∃ list,
    Chain (fun i => (s.producer (.pooled pages i)).nextFreeIndex) conf.maxProducers
      (s.registry pages).freeHead list ∧ list.Nodup ∧
    (∀ i ∈ list, i < (s.registry pages).count ∧
      (s.producer (.pooled pages i)).lifecycle = .free) ∧
    (∀ i < (s.registry pages).count, (s.producer (.pooled pages i)).lifecycle = .free →
      i ∈ list ∧ ¬ Pushing s pages i ∨ i ∉ list ∧ Pushing s pages i) ∧
    ∀ i < (s.registry pages).count, (s.producer (.pooled pages i)).lifecycle = .active →
      i ∉ list ∧ ∃ t, s.tls t pages = some i ∧ ∀ t', s.tls t' pages = some i → t' = t
  sole : SoleProducer conf s

theorem soleProducer (h : Ownership conf s) : SoleProducer conf s := by
  intro t t' p ht ht' hdiag
  cases p with
  | single pages =>
      have howner := (h.pc t).owns (hdiag pages rfl) pages ht
      have howner' := (h.pc t').owns (hdiag pages rfl) pages ht'
      exact Option.some.inj (howner.symm.trans howner')
  | pooled pages index =>
      exact (h.registry pages).holding.unique t t' index ((h.pc t).holds pages index ht)
        ((h.pc t').holds pages index ht')

/-- Every reachable state has intact registries and no queue with two producing threads. -/
theorem registryIntegrity_of_reachable (h : (handoff conf).Reachable s) :
    RegistryIntegrity conf s := by
  have hown := ownership_of_reachable h
  refine
    { size := fun pages => ⟨(hown.registry pages).layout.size_eq, (hown.registry pages).layout.le_max⟩
      slots := fun pages => (hown.registry pages).layout.slots_eq
      bound := fun pages i hi => ?_
      freeList := fun pages => ?_
      sole := soleProducer hown }
  · have hbinding := (hown.registry pages).layout.binding i hi
    simp only [Producer.binding, Prod.mk.injEq] at hbinding
    exact ⟨hbinding.2.1, hbinding.1, hbinding.2.2⟩
  · obtain ⟨-, holding, freeing⟩ := hown.registry pages
    obtain ⟨list, hlist⟩ := freeing.freeList
    refine ⟨list, hlist.chain, hlist.nodup, hlist.sound, fun i hi hfree => ?_,
      fun i hi hactive => ⟨fun hmem => ?_, ?_⟩⟩
    · by_cases hp : Pushing s pages i
      · exact .inr ⟨hlist.apart i hp, hp⟩
      · exact .inl ⟨(hlist.complete i hfree).resolve_right hp, hp⟩
    · have hfree := (hlist.sound i hmem).2
      rw [hactive] at hfree
      contradiction
    · obtain ⟨t, ht⟩ := holding.owned i hi hactive
      exact ⟨t, ht, fun t' ht' => holding.unique t' t i ht' ht⟩

/-- One threadsafe channel, one sink, one custom sink. -/
def demo : Sealed where
  channels := [⟨.threadsafe, .normal, 0⟩]
  configuredSinks := 1
  customSinks := 1
  sink_lt := by simp
  maxProducers := 2
  capacity _ := 4
  diagnostic := true

def demoThree : Sealed := { demo with maxProducers := 3 }

/-- Three threads log; the first one exits and the consumer frees its producer, then the second
one exits. -/
def demoRegistered : List Action :=
  List.flatten
    [(List.range 3).flatMap fun t =>
        [.call t (.logUnchecked 0), .thread t, .thread t, .produce t .dropped, .thread t],
      [.call 0 (.release .normal), .thread 0, .thread 0], List.replicate 14 .consumer,
      [.call 1 (.release .normal), .thread 1]]

/-- A free producer, a retired one and an active one. -/
theorem registryIntegrity_threads :
    ∃ s, (handoff demoThree).run (.started demoThree fun _ => .info) demoRegistered = some s ∧
      (List.range 3).map (fun i => (s.producer (.pooled .normal i)).lifecycle) =
        [.free, .retired, .active] ∧
      (s.registry .normal).freeHead = 0 ∧ RegistryIntegrity demoThree s := by
  have hrun : ((handoff demoThree).run (.started demoThree fun _ => .info) demoRegistered).map
      (fun s => ((List.range 3).map fun i => (s.producer (.pooled .normal i)).lifecycle,
        (s.registry .normal).freeHead)) = some ([.free, .retired, .active], 0) := by
    decide +kernel
  obtain ⟨s, hs, hfacts⟩ := Option.map_eq_some_iff.mp hrun
  obtain ⟨hlifecycles, hhead⟩ := Prod.mk.inj hfacts
  exact ⟨s, hs, hlifecycles, hhead, registryIntegrity_of_reachable (.run (.initial ⟨_, rfl⟩) hs)⟩

end Unlog.Handoff
