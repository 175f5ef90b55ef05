import Unlog.Handoff.Ownership

/-! # The life of a pooled producer

Created or taken off the free list by a thread, retired by it, marked free and pushed back by
the consumer: each keeps the ownership invariant. -/

namespace Unlog.Handoff

open Library

variable {conf : Sealed} {s s' : State} {t : ℕ} {pages : Pages} {index : ℕ}

/-! ## The slots -/

/-- Only a slot in use is not null, and it points to the producer of its index. -/
theorem Layout.slot_eq (h : Layout conf s pages) {i slot : ℕ}
    (hs : (s.registry pages).slots i = some slot) : slot = i ∧ i < (s.registry pages).count := by
  rw [h.slots_eq] at hs
  split at hs
  case isTrue hi => exact ⟨(Option.some.inj hs).symm, hi⟩
  case isFalse => contradiction

/-- A new producer is bound to the word and bit of its index. -/
theorem Layout.create (h : Layout conf s pages)
    (hlt : (s.registry pages).count < conf.maxProducers)
    (hregistry : s'.registry pages = { s.registry pages with
      size := (s.registry pages).count + 1
      slots := Function.update (s.registry pages).slots (s.registry pages).count
        (some (s.registry pages).count)
      count := (s.registry pages).count + 1 })
    (hnew : s'.producer (.pooled pages (s.registry pages).count) =
      (s.producer (.pooled pages (s.registry pages).count)).bindActiveWord pages
        (s.registry pages).count)
    (hother : ∀ i, i ≠ (s.registry pages).count →
      s'.producer (.pooled pages i) = s.producer (.pooled pages i)) : Layout conf s' pages where
  size_eq := by rw [hregistry]
  le_max := by rw [hregistry]; exact hlt
  slots_eq i := by
    rw [hregistry]
    by_cases hi : i = (s.registry pages).count
    · simp [hi]
    · have hiff : i < (s.registry pages).count + 1 ↔ i < (s.registry pages).count := by omega
      simp [Function.update_of_ne hi, h.slots_eq, hiff]
  binding i hi := by
    by_cases hidx : i = (s.registry pages).count
    · rw [hidx, hnew]
      rfl
    · have hlt : i < (s.registry pages).count := by
        rw [hregistry] at hi
        exact Nat.lt_of_le_of_ne (Nat.le_of_lt_succ hi) hidx
      rw [hother i hidx]
      exact h.binding i hlt

/-! ## Holders -/

/-- A thread that holds nothing gets a producer that nobody holds. -/
theorem Holding.grant (h : Holding s pages) (hnone : s.tls t pages = none)
    (hcount : (s.registry pages).count ≤ (s'.registry pages).count)
    (hrange : (s'.registry pages).count ≤ (s.registry pages).count ∨
      (s'.registry pages).count = (s.registry pages).count + 1 ∧ index = (s.registry pages).count)
    (hindex : index < (s'.registry pages).count)
    (hunheld : ∀ other, s.tls other pages ≠ some index)
    (hnew : (s'.producer (.pooled pages index)).lifecycle = .active)
    (hother : ∀ i, i ≠ index → (s'.producer (.pooled pages i)).lifecycle =
      (s.producer (.pooled pages i)).lifecycle)
    (htls : s'.tls t pages = some index)
    (htls' : ∀ other, other ≠ t → s'.tls other pages = s.tls other pages) :
    Holding s' pages where
  fresh i hi := by
    rw [hother i (by omega)]
    exact h.fresh i (by omega)
  held other i ho := by
    by_cases heq : other = t
    · subst heq
      obtain rfl : index = i := Option.some.inj (htls.symm.trans ho)
      exact ⟨hindex, hnew⟩
    · rw [htls' other heq] at ho
      obtain ⟨hi, hactive⟩ := h.held other i ho
      have hidx : i ≠ index := by
        rintro rfl
        exact hunheld other ho
      rw [hother i hidx]
      exact ⟨Nat.lt_of_lt_of_le hi hcount, hactive⟩
  unique a b i ha hb := by
    by_cases heqa : a = t <;> by_cases heqb : b = t
    · rw [heqa, heqb]
    · subst heqa
      obtain rfl : index = i := Option.some.inj (htls.symm.trans ha)
      exact absurd (htls' b heqb ▸ hb) (hunheld b)
    · subst heqb
      obtain rfl : index = i := Option.some.inj (htls.symm.trans hb)
      exact absurd (htls' a heqa ▸ ha) (hunheld a)
    · exact h.unique a b i (htls' a heqa ▸ ha) (htls' b heqb ▸ hb)
  owned i hi hactive := by
    by_cases hidx : i = index
    · exact ⟨t, by rw [htls, hidx]⟩
    · rw [hother i hidx] at hactive
      obtain ⟨other, ho⟩ := h.owned i (by omega) hactive
      have hne : other ≠ t := by
        rintro rfl
        rw [hnone] at ho
        contradiction
      exact ⟨other, (htls' other hne).trans ho⟩

/-- The holder gives its producer up. -/
theorem Holding.retire (h : Holding s pages) (hheld : s.tls t pages = some index)
    (hcount : (s'.registry pages).count = (s.registry pages).count)
    (hnew : (s'.producer (.pooled pages index)).lifecycle = .retired)
    (hother : ∀ i, i ≠ index → (s'.producer (.pooled pages i)).lifecycle =
      (s.producer (.pooled pages i)).lifecycle)
    (htls : s'.tls t pages = none)
    (htls' : ∀ other, other ≠ t → s'.tls other pages = s.tls other pages) :
    Holding s' pages where
  fresh i hi := by
    have hlt := (h.held t index hheld).1
    rw [hcount] at hi
    rw [hother i (by omega)]
    exact h.fresh i hi
  held other i ho := by
    have hne : other ≠ t := by
      rintro rfl
      rw [htls] at ho
      contradiction
    rw [htls' other hne] at ho
    have hidx : i ≠ index := by
      rintro rfl
      exact hne (h.unique other t i ho hheld)
    rw [hcount, hother i hidx]
    exact h.held other i ho
  unique a b i ha hb := by
    have hne : ∀ other, s'.tls other pages = some i → other ≠ t := by
      rintro _ ho rfl
      rw [htls] at ho
      contradiction
    exact h.unique a b i (htls' a (hne a ha) ▸ ha) (htls' b (hne b hb) ▸ hb)
  owned i hi hactive := by
    have hidx : i ≠ index := by
      rintro rfl
      rw [hnew] at hactive
      contradiction
    rw [hother i hidx] at hactive
    obtain ⟨other, ho⟩ := h.owned i (hcount ▸ hi) hactive
    have hne : other ≠ t := by
      rintro rfl
      exact hidx (Option.some.inj (ho.symm.trans hheld))
    exact ⟨other, (htls' other hne).trans ho⟩

/-! ## The free list -/

/-- The head of the free list leaves it. -/
theorem Freeing.recycle (h : Freeing conf s pages)
    (hhead : (s.registry pages).freeHead ≠ conf.maxProducers)
    (hindex : (s.registry pages).freeHead = index)
    (hcount : (s'.registry pages).count = (s.registry pages).count)
    (hnext : (s'.registry pages).freeHead = (s.producer (.pooled pages index)).nextFreeIndex)
    (hnew : (s'.producer (.pooled pages index)).lifecycle = .active)
    (hother : ∀ i, i ≠ index → s'.producer (.pooled pages i) = s.producer (.pooled pages i))
    (hconsumer : s'.consumer = s.consumer) : Freeing conf s' pages := by
  subst hindex
  obtain ⟨list, hlist⟩ := h.freeList
  obtain ⟨rest, rfl, hrest⟩ := hlist.chain.pop hhead
  obtain ⟨hnotin, hnodup⟩ := List.nodup_cons.mp hlist.nodup
  have hne : ∀ i ∈ rest, i ≠ (s.registry pages).freeHead := by
    rintro i hi rfl
    exact hnotin hi
  have hpush : ∀ i, Pushing s' pages i ↔ Pushing s pages i := fun i => by
    rw [Pushing, Pushing, hconsumer]
  refine
    { visiting := fun round resume i stage hv => by
        rw [hcount]
        exact h.visiting round resume i stage (hconsumer ▸ hv)
      pushing := ?_
      freeList := ⟨rest, ?_, hnodup, ?_, ?_, ?_⟩ }
  · intro i hp
    have hidx : i ≠ (s.registry pages).freeHead := by
      rintro rfl
      exact hlist.apart _ ((hpush _).mp hp) List.mem_cons_self
    rw [hother i hidx]
    exact h.pushing i ((hpush i).mp hp)
  · rw [FreeChain, hnext]
    exact hrest.congr fun j hj => by rw [hother j (hne j hj)]
  · intro i hi
    rw [hother i (hne i hi), hcount]
    exact hlist.sound i (List.mem_cons_of_mem _ hi)
  · intro i hi
    have hidx : i ≠ (s.registry pages).freeHead := by
      rintro rfl
      rw [hnew] at hi
      contradiction
    rw [hother i hidx] at hi
    rw [hpush]
    exact (hlist.complete i hi).imp_left fun hmem =>
      (List.mem_cons.mp hmem).resolve_left hidx
  · intro i hp hmem
    exact hlist.apart i ((hpush i).mp hp) (List.mem_cons_of_mem _ hmem)

/-- The head of the free list is free. -/
theorem RegistrySound.head_free (h : RegistrySound conf s pages)
    (hhead : (s.registry pages).freeHead ≠ conf.maxProducers)
    (hslot : (s.registry pages).slots (s.registry pages).freeHead = some index) :
    (s.producer (.pooled pages index)).lifecycle = .free := by
  obtain ⟨list, hlist⟩ := h.freeing.freeList
  obtain ⟨rest, rfl, -⟩ := hlist.chain.pop hhead
  rw [(h.layout.slot_eq hslot).1]
  exact (hlist.sound _ List.mem_cons_self).2

/-- The consumer marks a retired producer free and is about to push it. -/
theorem Freeing.markFree (h : Freeing conf s pages)
    (hbefore : ∀ i, ¬ Pushing s pages i) (hindex : index < (s.registry pages).count)
    (hretired : (s.producer (.pooled pages index)).lifecycle = .retired)
    (hregistry : s'.registry pages = s.registry pages)
    (hlink : ∀ i, (s'.producer (.pooled pages i)).nextFreeIndex =
      (s.producer (.pooled pages i)).nextFreeIndex)
    (hnew : (s'.producer (.pooled pages index)).lifecycle = .free)
    (hother : ∀ i, i ≠ index → (s'.producer (.pooled pages i)).lifecycle =
      (s.producer (.pooled pages i)).lifecycle)
    {round : Round} {resume : Cursor}
    (hconsumer : s'.consumer = .visit round resume (.pooled pages index) .pushFree) :
    Freeing conf s' pages := by
  obtain ⟨list, hlist⟩ := h.freeList
  have honly : ∀ i, Pushing s' pages i → i = index := by
    rintro i ⟨round', resume', hp⟩
    rw [hconsumer] at hp
    simp only [ConsumerPc.visit.injEq, ProducerId.pooled.injEq] at hp
    exact hp.2.2.1.2.symm
  have hnotin : index ∉ list := by
    intro hmem
    have hfree := (hlist.sound index hmem).2
    rw [hretired] at hfree
    contradiction
  refine
    { visiting := ?_
      pushing := fun i hp => by rw [honly i hp]; exact hnew
      freeList := ⟨list, ?_, hlist.nodup, ?_, ?_, ?_⟩ }
  · intro round' resume' i stage hv
    rw [hconsumer] at hv
    simp only [ConsumerPc.visit.injEq, ProducerId.pooled.injEq] at hv
    obtain ⟨-, -, ⟨-, rfl⟩, -⟩ := hv
    rw [hregistry]
    exact hindex
  · rw [FreeChain, hregistry]
    exact hlist.chain.congr fun j _ => hlink j
  · intro i hi
    have hidx : i ≠ index := by
      rintro rfl
      exact hnotin hi
    rw [hother i hidx, hregistry]
    exact hlist.sound i hi
  · intro i hi
    by_cases hidx : i = index
    · exact .inr ⟨round, resume, by rw [hconsumer, hidx]⟩
    · rw [hother i hidx] at hi
      exact .inl ((hlist.complete i hi).resolve_right (hbefore i))
  · intro i hp
    rw [honly i hp]
    exact hnotin

/-- The consumer pushes the producer it marked free. -/
theorem Freeing.push (h : Freeing conf s pages) (hpush : Pushing s pages index)
    (hmax : index ≠ conf.maxProducers) (hindex : index < (s.registry pages).count)
    (hcount : (s'.registry pages).count = (s.registry pages).count)
    (hhead : (s'.registry pages).freeHead = index)
    (hlife : ∀ i, (s'.producer (.pooled pages i)).lifecycle =
      (s.producer (.pooled pages i)).lifecycle)
    (hlink : (s'.producer (.pooled pages index)).nextFreeIndex = (s.registry pages).freeHead)
    (hother : ∀ i, i ≠ index → (s'.producer (.pooled pages i)).nextFreeIndex =
      (s.producer (.pooled pages i)).nextFreeIndex)
    {round : Round} {resume : Cursor} (hconsumer : s'.consumer = .pass round resume) :
    Freeing conf s' pages := by
  obtain ⟨list, hlist⟩ := h.freeList
  have hnotin := hlist.apart index hpush
  have hnone : ∀ i, ¬ Pushing s' pages i := by
    rintro i ⟨round', resume', hp⟩
    rw [hconsumer] at hp
    contradiction
  have honly : ∀ i, Pushing s pages i → i = index := by
    obtain ⟨round', resume', hp⟩ := hpush
    rintro i ⟨round'', resume'', hi⟩
    rw [hp] at hi
    simp only [ConsumerPc.visit.injEq, ProducerId.pooled.injEq] at hi
    exact hi.2.2.1.2.symm
  refine
    { visiting := fun round' resume' i stage hv => by rw [hconsumer] at hv; contradiction
      pushing := fun i hp => absurd hp (hnone i)
      freeList := ⟨index :: list, ?_, List.nodup_cons.mpr ⟨hnotin, hlist.nodup⟩, ?_, ?_, ?_⟩ }
  · rw [FreeChain, hhead]
    refine hlist.chain.push hmax hlink fun j hj => hother j ?_
    rintro rfl
    exact hnotin hj
  · intro i hi
    rw [hlife, hcount]
    rcases List.mem_cons.mp hi with rfl | hi
    · exact ⟨hindex, h.pushing _ hpush⟩
    · exact hlist.sound i hi
  · intro i hi
    rw [hlife] at hi
    rcases hlist.complete i hi with hmem | hp
    · exact .inl (List.mem_cons_of_mem _ hmem)
    · exact .inl (by rw [honly i hp]; exact List.mem_cons_self)
  · intro i hp
    exact absurd hp (hnone i)

end Unlog.Handoff
