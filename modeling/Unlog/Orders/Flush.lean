import Unlog.Orders.Wake

/-! # Flush completeness under weak memory

The ticket of a flush is taken with a relaxed update, so a consumer that reads it learns nothing
of the records before it. -/

namespace Unlog.Orders

open Library
open Handoff (Pages)

variable {maxProducers : ℕ} {m m' : Machine} {a : Action} {t : ℕ} {pages : Pages}
  {memory : Memory Party Loc ℕ}

/-! ## What is promised -/

/-- The ticket of the flush that a thread is in. -/
def ThreadPc.target? : ThreadPc → Option ℕ
  | .wakeFlush target | .waitFlush target | .leaveFlush target => some target
  | _ => none

/-- The consumer serves the flush of the thread, which has a producer. -/
structure Serves (m : Machine) (t : ℕ) (pages : Pages) (i : ℕ) : Prop where
  covered : ∃ target requested, (m.thread t).pc.target? = some target ∧
    m.consumer.pc.requested? = some requested ∧ target ≤ requested
  owner : (m.thread t).tls pages = some i

/-- The consumer's view has all records of the thread, and the registration of its producer. -/
def Included (m : Machine) (t : ℕ) (pages : Pages) (i : ℕ) : Prop :=
  (m.thread t).tail pages ≤ m.memory.view .consumer (.tail pages i) ∧
    (0 < (m.thread t).tail pages → i < m.memory.view .consumer (.count pages))

/-- Of a flush whose ticket the consumer has read, the consumer knows the records, and has consumed
them before it stores `flush_completed`. -/
structure FlushContract (m : Machine) : Prop where
  included : ∀ t pages i, Serves m t pages i → Included m t pages i
  consumed : ∀ t pages i, Serves m t pages i →
    ∀ requested, m.consumer.pc = .storeCompleted requested →
      (m.thread t).tail pages ≤ m.consumer.head pages i

/-- A consumer that reads the ticket of a flush has acquired a message that carries the last record
of the thread: a ticket of `wake_seq`, a word of ready bits, an `enqueued` flag, a tail or a
count. -/
def Synchronised (m : Machine) (a : Action) : Prop :=
  ∀ i seq drained message t target pages index, a = .consumer i →
    m.consumer.pc = .readRequested seq drained →
    (m.memory.history .flushRequested)[i]? = some message →
    (m.thread t).pc.target? = some target → target ≤ message.value →
    (m.thread t).tls pages = some index → 0 < (m.thread t).tail pages →
      m.memory.Heard .consumer (.tail pages index) ((m.thread t).tail pages)

/-- The pass that reads the ticket of a flush has sampled `wake_seq` no earlier than the flush
bumped it. -/
def Sampled (m : Machine) (a : Action) : Prop :=
  ∀ i seq drained message t target, a = .consumer i →
    m.consumer.pc = .readRequested seq drained →
    (m.memory.history .flushRequested)[i]? = some message →
    (m.thread t).pc.target? = some target → target ≤ message.value →
      (m.thread t).pc.Woken ∧ m.memory.view (.thread t) .wakeSeq ≤ seq

/-! ## Tickets -/

/-- Tickets are numbered, and their messages carry nothing. -/
structure Tickets (m : Machine) : Prop where
  numbered : Numbered m.memory .flushRequested
  bare : ∀ (i : ℕ) (message : Message Loc ℕ),
    (m.memory.history .flushRequested)[i]? = some message →
      ∀ l, l ≠ .flushRequested → message.view l = 0
  issued : ∀ t target, (m.thread t).pc.target? = some target →
    target < (m.memory.history .flushRequested).length
  asked : ∀ requested, m.consumer.pc.requested? = some requested →
    requested < (m.memory.history .flushRequested).length

theorem Goes.target {thread next : ThreadState} {target : ℕ} (h : Goes thread next)
    (hn : next.pc.target? = some target) :
    thread.pc.target? = some target ∨ thread.pc = .takeTicket := by
  cases h with
  | take hpc => exact .inr hpc
  | bump hpc | wait hpc | served hpc =>
      rw [hpc]
      exact .inl hn
  | _ => contradiction

/-- The consumer serves what it served, or has just read how much is requested. -/
theorem Advances.requested {consumer next : ConsumerState} {i requested : ℕ}
    (h : Advances memory i consumer next) (hnext : next.pc.requested? = some requested) :
    consumer.pc.requested? = some requested ∨ ∃ seq drained message,
      consumer.pc = .readRequested seq drained ∧
      (memory.history .flushRequested)[i]? = some message ∧ requested = message.value := by
  cases h with
  | sample => contradiction
  | request hpc hmessage =>
      exact .inr ⟨_, _, _, hpc, hmessage, (Option.some.inj hnext).symm⟩
  | serve hpc => exact .inl (hpc ▸ hnext)
  | count hpc => exact .inl (hpc ▸ requested_nextSlot.symm.trans hnext)
  | consume hpc | look hpc =>
      rw [hpc]
      exact .inl ((requested_visit _ _).trans hnext)
  | leave hpc =>
      rw [hpc]
      exact .inl (requested_resume hnext)
  | other hnot => exact absurd hnext (hnot requested)

theorem takeTicket_of_writes {pc : ThreadPc} (h : pc.Writes .flushRequested) :
    pc = .takeTicket := by
  cases pc with
  | takeTicket => rfl
  | idle | waitFlush => exact h.elim
  | _ => contradiction

theorem entry_target {thread : ThreadState} {call : Call} :
    (call.entry thread).target? = none := by
  cases call with
  | flush => rfl
  | log pages =>
      simp only [Call.entry]
      split <;> rfl

theorem Tickets.last (h : Tickets m) {message : Message Loc ℕ}
    (hlast : (m.memory.history .flushRequested).getLast? = some message) :
    message.value + 1 = (m.memory.history .flushRequested).length := by
  have hmessage := Memory.getElem?_of_last hlast
  have hlt := (List.getElem?_eq_some_iff.mp hmessage).1
  rw [h.numbered _ _ hmessage]
  omega

/-- A thread takes the next ticket. -/
theorem Tickets.next {i target : ℕ} {access : Access Loc ℕ ThreadState} {next : ThreadState}
    (h : Tickets m) (hpc : (m.thread t).pc = .takeTicket)
    (haccess : (m.thread t).access maxProducers = some access)
    (hperforms : m.memory.Performs (.thread t) i access memory next)
    (htarget : next.pc.target? = some target) :
    target = (m.memory.history .flushRequested).length := by
  simp only [ThreadState.access, hpc, Option.some.injEq] at haccess
  subst haccess
  cases hperforms with
  | update hlast hvalue => exact (Option.some.inj htarget).symm.trans (h.last hlast)

theorem Tickets.take {i : ℕ} {access : Access Loc ℕ ThreadState} {next : ThreadState}
    (h : Tickets m) (hpc : (m.thread t).pc = .takeTicket)
    (haccess : (m.thread t).access maxProducers = some access)
    (hperforms : m.memory.Performs (.thread t) i access memory next) :
    Tickets (m.after t memory next) := by
  simp only [ThreadState.access, hpc, Option.some.injEq] at haccess
  subst haccess
  have hnumbered := h.numbered.bump hperforms
  cases hperforms with
  | @update _ _ _ _ message value hlast hvalue =>
      have hmessage := Memory.getElem?_of_last hlast
      have hlength := h.last hlast
      refine
        { numbered := hnumbered
          bare := fun j message' hmessage' l hl => ?_
          issued := fun t' target htarget => ?_
          asked := fun requested hrequested => ?_ }
      · rcases Memory.writes_getElem? hmessage' with hold | ⟨-, -, rfl⟩
        · exact h.bare j message' hold l hl
        · simp only [Order.releases, Bool.false_eq_true, if_false, Pi.sup_apply,
            h.bare _ _ hmessage l hl, Pi.single_eq_of_ne hl, max_self]
      · rw [Machine.after_memory, length_writes]
        by_cases ht : t' = t
        · subst ht
          rw [Machine.after_self] at htarget
          obtain rfl := Option.some.inj htarget
          exact Nat.lt_succ_of_le hlength.le
        · rw [Machine.after_of_ne ht] at htarget
          exact Nat.lt_succ_of_lt (h.issued t' target htarget)
      · rw [Machine.after_memory, length_writes]
        exact Nat.lt_succ_of_lt (h.asked requested hrequested)

theorem tickets_of_reachable (h : (orders maxProducers).Reachable m) : Tickets m := by
  refine h.invariant ?_ fun m a m' hm ht hstep => ?_
  · rintro m rfl
    refine
      { numbered := fun i message h => ?_
        bare := fun i message h l _ => by rw [(initial_message h).2]; rfl
        issued := fun t target h => by contradiction
        asked := fun requested h => by contradiction }
    obtain rfl := (initial_message h).1
    obtain rfl := Option.some.inj h
    rfl
  · cases step_kind hstep with
    | @call t call hidle =>
        refine { ht with issued := ?_ }
        refine after_all (P := fun _ thread => ∀ target, thread.pc.target? = some target →
          target < (m.memory.history .flushRequested).length) (fun target htarget => ?_)
          fun t' _ => ht.issued t'
        exact absurd (entry_target.symm.trans htarget) (by simp)
    | @thread t i access memory next haccess hperforms =>
        by_cases hpc : (m.thread t).pc = .takeTicket
        · exact ht.take hpc haccess hperforms
        · have hsame : memory.history .flushRequested = m.memory.history .flushRequested := by
            exact history_of_writes haccess hperforms fun hw => hpc (takeTicket_of_writes hw)
          refine
            { numbered := ht.numbered.congr hsame
              bare := fun i message hmessage => ht.bare i message (hsame ▸ hmessage)
              issued := ?_
              asked := fun requested h => hsame ▸ ht.asked requested h }
          refine after_all (P := fun _ thread => ∀ target, thread.pc.target? = some target →
            target < (memory.history .flushRequested).length) (fun target htarget => ?_)
            fun t' _ target htarget => hsame ▸ ht.issued t' target htarget
          have hold := ((goes_of_performs haccess hperforms).target htarget).resolve_right hpc
          exact hsame ▸ ht.issued t target hold
    | consumer hperforms =>
        have hsame := history_of_foreign (l := .flushRequested) hperforms rfl
        refine
          { numbered := ht.numbered.congr hsame
            bare := fun i message hmessage => ht.bare i message (hsame ▸ hmessage)
            issued := fun t target htarget => hsame ▸ ht.issued t target htarget
            asked := fun requested hrequested => ?_ }
        rw [hsame]
        rcases (advances_of_performs hperforms).requested hrequested with
          hold | ⟨seq, drained, message, -, hmessage, rfl⟩
        · exact ht.asked requested hold
        · rw [ht.numbered _ _ hmessage]
          exact (List.getElem?_eq_some_iff.mp hmessage).1

/-! ## What the consumer knows -/

theorem reads_acquire {consumer : ConsumerState} {o : Order} {l : Loc} {k : ℕ → ConsumerState}
    (h : consumer.access = .read o l k) : o.acquires = true := by
  have hfits := fits_consumer consumer ⊥
  rwa [h] at hfits

/-- The consumer knows of a record from a message that it has acquired. -/
theorem heard_of_view (h : (orders maxProducers).Reachable m) {index n : ℕ} (hpos : 0 < n)
    (hn : n ≤ m.memory.view .consumer (.tail pages index)) :
    m.memory.Heard .consumer (.tail pages index) n := by
  refine h.invariant (I := fun m => n ≤ m.memory.view .consumer (.tail pages index) →
    m.memory.Heard .consumer (.tail pages index) n) ?_ (fun m a m' hm hI hstep hn => ?_) hn
  · rintro m rfl hn
    exact absurd hn (Nat.not_le.mpr hpos)
  · cases step_kind hstep with
    | call => exact hI hn
    | thread haccess hperforms =>
        rw [Machine.after_memory, hperforms.view_of_ne (by simp)] at hn
        exact (hI hn).performs hperforms
    | consumer hperforms =>
        have hwritten : m.consumer.access.written? ≠ some (.tail pages index) := fun hw => by
          have hforeign := foreign_of_consumer hw
          contradiction
        rcases hperforms.heard (sound_of_reachable hm) hwritten (fun _ _ _ => reads_acquire) hn with
          hold | hheard
        · exact (hI hold).performs hperforms
        · exact hheard

/-- Who has a record in view has the registration of its producer in view. -/
theorem included_of_le (h : (orders maxProducers).Reachable m) {i : ℕ}
    (hle : (m.thread t).tail pages ≤ m.memory.view .consumer (.tail pages i)) :
    Included m t pages i :=
  ⟨hle, fun hpos => (closed_of_reachable h).parties .consumer pages i (hpos.trans_le hle)⟩

/-- A ticket that is read in time is of records that the consumer knows. -/
theorem Synchronised.le {i : ℕ} (hsync : Synchronised m (.consumer i)) (hs : m.memory.Sound) {seq : ℕ}
    {drained : Bool} {message : Message Loc ℕ} {target index : ℕ}
    (hpc : m.consumer.pc = .readRequested seq drained)
    (hmessage : (m.memory.history .flushRequested)[i]? = some message)
    (htarget : (m.thread t).pc.target? = some target) (hle : target ≤ message.value)
    (howner : (m.thread t).tls pages = some index) :
    (m.thread t).tail pages ≤ m.memory.view .consumer (.tail pages index) := by
  by_cases hpos : 0 < (m.thread t).tail pages
  · have hheard := hsync i seq drained message t target pages index rfl hpc hmessage htarget hle
      howner hpos
    exact hheard.le hs
  · omega

/-! ## One round of `drain_flush` -/

/-- The round has been at the producer, and consumed what it read of its tail. -/
def ConsumerPc.Passed (pages : Pages) (i : ℕ) : ConsumerPc → Prop
  | .storeCompleted _ => True
  | .flushCount .huge _ => pages = .normal
  | .visit pages' index stage (.flush ..) => pages = .normal ∧ pages' = .huge ∨
      pages = pages' ∧ (i < index ∨ i = index ∧ stage ≠ .consume)
  | _ => False

/-- The round consumes the records of the thread. -/
structure Served (m : Machine) (t : ℕ) (pages : Pages) (i : ℕ) : Prop where
  included : Included m t pages i
  passed : m.consumer.pc.Passed pages i → (m.thread t).tail pages ≤ m.consumer.head pages i
  counted : ∀ index stage requested count next,
    m.consumer.pc = .visit pages index stage (.flush requested count next) →
      next = index + 1 ∧ (0 < (m.thread t).tail pages → i < count)

/-- Passing the end of a registry. -/
theorem passed_nextSlot {pages' : Pages} {requested count next i : ℕ}
    (h : (ConsumerPc.nextSlot pages' requested count next).Passed pages i) :
    pages = .normal ∧ pages' = .huge ∨ pages = pages' ∧ (i < next ∨ count ≤ next) := by
  unfold ConsumerPc.nextSlot at h
  split at h
  · rcases h with hbefore | ⟨hpages, hlt | ⟨-, hne⟩⟩
    · exact .inl hbefore
    · exact .inr ⟨hpages, .inl hlt⟩
    · exact absurd rfl hne
  · rename_i hcount
    cases pages' with
    | normal => exact .inr ⟨h, .inr (Nat.le_of_not_lt hcount)⟩
    | huge =>
        cases pages with
        | normal => exact .inl ⟨rfl, rfl⟩
        | huge => exact .inr ⟨rfl, .inr (Nat.le_of_not_lt hcount)⟩

theorem visit_of_nextSlot {pages' : Pages} {requested count next index : ℕ} {stage : Stage}
    {requested' count' next' : ℕ}
    (h : ConsumerPc.nextSlot pages' requested count next =
      .visit pages index stage (.flush requested' count' next')) :
    pages' = pages ∧ next' = index + 1 ∧ count' = count := by
  unfold ConsumerPc.nextSlot at h
  split at h
  · obtain ⟨rfl, rfl, -, hresume⟩ := ConsumerPc.visit.inj h
    obtain ⟨-, rfl, rfl⟩ := Resume.flush.inj hresume
    exact ⟨rfl, rfl, rfl⟩
  · cases pages' <;> contradiction

/-- A thread that goes on does not join those that are served, and does not log in a flush. -/
theorem serves_of_thread (htickets : Tickets m) {u i index : ℕ}
    {access : Access Loc ℕ ThreadState} {next : ThreadState}
    (haccess : (m.thread u).access maxProducers = some access)
    (hperforms : m.memory.Performs (.thread u) i access memory next)
    (h : Serves (m.after u memory next) t pages index) :
    Serves m t pages index ∧
      ((m.after u memory next).thread t).tail = (m.thread t).tail := by
  obtain ⟨⟨target, requested, htarget, hrequested, hle⟩, howner⟩ := h
  by_cases ht : t = u
  · subst ht
    rw [Machine.after_self] at htarget howner ⊢
    have hasked : requested < _ := htickets.asked requested hrequested
    have hgoes := goes_of_performs haccess hperforms
    rcases hgoes.target htarget with hold | hpc
    · obtain ⟨htls, htail⟩ := hgoes.locals
      have htls : next.tls = (m.thread t).tls := htls.resolve_right fun ⟨_, _, hpc, _⟩ => by
        rw [hpc] at hold
        contradiction
      have htail : next.tail = (m.thread t).tail := htail.resolve_right fun ⟨_, _, hpc, _⟩ => by
        rw [hpc] at hold
        contradiction
      exact ⟨⟨⟨target, requested, hold, hrequested, hle⟩, htls ▸ howner⟩, htail⟩
    · -- the new ticket is above all that were read
      have hnew := htickets.next hpc haccess hperforms htarget
      omega
  · rw [Machine.after_of_ne ht] at htarget howner ⊢
    exact ⟨⟨⟨target, requested, htarget, hrequested, hle⟩, howner⟩, rfl⟩

/-- The consumer keeps what it serves, and learns. -/
theorem served_consumer (hm : (orders maxProducers).Reachable m) {i index : ℕ}
    {next : ConsumerState} (hperforms : m.memory.Performs .consumer i m.consumer.access memory next)
    (hsync : Synchronised m (.consumer i))
    (hserved : Serves m t pages index → Served m t pages index)
    (hm' : (orders maxProducers).Reachable { m with memory := memory, consumer := next })
    (h : Serves { m with memory := memory, consumer := next } t pages index) :
    Served { m with memory := memory, consumer := next } t pages index := by
  have hregistry := registrySound_of_reachable hm
  have hview := hperforms.view_le .consumer
  obtain ⟨⟨target, requested, htarget, hrequested, hle⟩, howner⟩ := h
  have hold : m.consumer.pc.requested? = some requested → Served m t pages index := fun hr =>
    hserved ⟨⟨target, requested, htarget, hr, hle⟩, howner⟩
  have hincluded : m.consumer.pc.requested? = some requested →
      Included { m with memory := memory, consumer := next } t pages index := fun hr =>
    included_of_le hm' ((hold hr).included.1.trans (hview _))
  cases advances_of_performs hperforms with
  | sample => contradiction
  | @request seq drained message hpc hmessage =>
      obtain rfl := Option.some.inj hrequested
      have hknown := hsync.le (sound_of_reachable hm) hpc hmessage htarget hle howner
      exact
        { included := included_of_le hm' (hknown.trans (hview _))
          passed := fun h => h.elim
          counted := fun _ _ _ _ _ h => by contradiction }
  | serve hpc =>
      exact
        { included := hincluded (hpc ▸ hrequested)
          passed := fun h => h.elim
          counted := fun _ _ _ _ _ h => by contradiction }
  | @count pages' requested' message hpc hpast hmessage =>
      have hr : m.consumer.pc.requested? = some requested := by
        rw [hpc]
        exact requested_nextSlot.symm.trans hrequested
      have hserved' := hold hr
      have hcount : 0 < (m.thread t).tail pages → pages' = pages → index < message.value := by
        rintro hpos rfl
        rw [(hregistry pages').1.counts _ _ hmessage]
        exact (hserved'.included.2 hpos).trans_le hpast
      refine
        { included := hincluded hr
          passed := fun h => ?_
          counted := fun _ _ _ _ _ h => ?_ }
      · rcases passed_nextSlot h with ⟨rfl, rfl⟩ | ⟨rfl, hlt | hzero⟩
        · exact hserved'.passed (by rw [hpc]; rfl)
        · exact absurd hlt (Nat.not_lt_zero index)
        · by_cases hpos : 0 < (m.thread t).tail pages
          · have hlt := hcount hpos rfl
            omega
          · exact (Nat.le_of_not_lt hpos).trans (Nat.zero_le _)
      · obtain ⟨hpages, hnext, hsame⟩ := visit_of_nextSlot h
        exact ⟨hnext, fun hpos => hsame ▸ hcount hpos hpages⟩
  | @consume pages' index' resume message hpc hpast hmessage =>
      have hr : m.consumer.pc.requested? = some requested := by
        rw [hpc]
        exact (requested_visit _ _).trans hrequested
      have hserved' := hold hr
      cases resume with
      | ready => contradiction
      | flush requested' count next =>
          refine
            { included := hincluded hr
              passed := fun h => ?_
              counted := fun _ _ _ _ _ h => ?_ }
          · rcases h with ⟨rfl, rfl⟩ | ⟨rfl, hlt | ⟨rfl, -⟩⟩
            · exact hserved'.passed (by rw [hpc]; exact .inl ⟨rfl, rfl⟩)
            · have hpassed := hserved'.passed (by rw [hpc]; exact .inr ⟨rfl, .inl hlt⟩)
              simpa [Function.update_of_ne (Nat.ne_of_lt hlt)] using hpassed
            · -- it reads a tail that is not older than the one it knows
              have hvalue := (hregistry pages).2.tails index _ _ hmessage
              have hknown := hserved'.included.1
              simp only [Function.update_self]
              omega
          · obtain ⟨rfl, rfl, -, hresume⟩ := ConsumerPc.visit.inj h
            exact hserved'.counted _ _ _ _ _ (hresume ▸ hpc)
  | @look pages' index' stage stage' resume hpc hstage hstage' =>
      have hr : m.consumer.pc.requested? = some requested := by
        rw [hpc]
        exact (requested_visit _ _).trans hrequested
      have hserved' := hold hr
      cases resume with
      | ready => contradiction
      | flush requested' count next =>
          refine
            { included := hincluded hr
              passed := fun h => hserved'.passed ?_
              counted := fun _ _ _ _ _ h => ?_ }
          · rw [hpc]
            exact h.imp_right fun ⟨hpages, hpast⟩ =>
              ⟨hpages, hpast.imp_right fun ⟨heq, _⟩ => ⟨heq, hstage⟩⟩
          · obtain ⟨rfl, rfl, -, hresume⟩ := ConsumerPc.visit.inj h
            exact hserved'.counted _ _ _ _ _ (hresume ▸ hpc)
  | @leave pages' index' stage resume drained hpc hstage =>
      have hr : m.consumer.pc.requested? = some requested := by
        rw [hpc]
        exact requested_resume hrequested
      have hserved' := hold hr
      cases resume with
      | ready => exact absurd hrequested (requested_nextReady _)
      | flush requested' count next =>
          refine
            { included := hincluded hr
              passed := fun h => ?_
              counted := fun _ _ _ _ _ h => ?_ }
          · rcases passed_nextSlot h with ⟨rfl, rfl⟩ | ⟨rfl, hend⟩
            · exact hserved'.passed (by rw [hpc]; exact .inl ⟨rfl, rfl⟩)
            · obtain ⟨rfl, hcount⟩ := hserved'.counted _ _ _ _ _ hpc
              by_cases hpos : 0 < (m.thread t).tail pages
              · have hlt := hcount hpos
                refine hserved'.passed ?_
                rw [hpc]
                rcases Nat.lt_or_eq_of_le (show index ≤ index' by omega) with hlt | heq
                · exact .inr ⟨rfl, .inl hlt⟩
                · exact .inr ⟨rfl, .inr ⟨heq, hstage⟩⟩
              · exact (Nat.le_of_not_lt hpos).trans (Nat.zero_le _)
          · obtain ⟨rfl, hnext, hsame⟩ := visit_of_nextSlot h
            exact ⟨hnext, fun hpos => hsame ▸ (hserved'.counted _ _ _ _ _ hpc).2 hpos⟩
  | other hnot => exact absurd hrequested (hnot requested)

/-- A thread that goes on leaves what is served as it is. -/
theorem served_thread (hm : (orders maxProducers).Reachable m) {u i index : ℕ}
    {access : Access Loc ℕ ThreadState} {next : ThreadState}
    (haccess : (m.thread u).access maxProducers = some access)
    (hperforms : m.memory.Performs (.thread u) i access memory next)
    (hserved : Serves m t pages index → Served m t pages index)
    (hm' : (orders maxProducers).Reachable (m.after u memory next))
    (h : Serves (m.after u memory next) t pages index) :
    Served (m.after u memory next) t pages index := by
  obtain ⟨hold, htail⟩ := serves_of_thread (tickets_of_reachable hm) haccess hperforms h
  have hserved' := hserved hold
  refine
    { included := included_of_le hm' ?_
      passed := fun h => (congrFun htail pages).trans_le (hserved'.passed h)
      counted := fun index' stage requested count next' h => ?_ }
  · rw [Machine.after_memory, hperforms.view_of_ne (by simp), htail]
    exact hserved'.included.1
  · obtain ⟨hnext, hcount⟩ := hserved'.counted index' stage requested count next' h
    exact ⟨hnext, fun hpos => hcount (htail ▸ hpos)⟩

theorem served_of_synchronised (h : (orders maxProducers).ReachableWhere Synchronised m)
    {index : ℕ} : Serves m t pages index → Served m t pages index := by
  refine h.invariant (I := fun m => Serves m t pages index → Served m t pages index) ?_
    fun m a m' hm hserved hsync hstep hserves => ?_
  · rintro m rfl ⟨⟨target, requested, htarget, -⟩, -⟩
    contradiction
  · have hm' := hm.step hstep
    cases step_kind hstep with
    | @call u call hidle =>
        obtain ⟨⟨target, requested, htarget, hrequested, hle⟩, howner⟩ := hserves
        have ht : t ≠ u := by
          rintro rfl
          rw [Machine.after_self] at htarget
          exact absurd (entry_target.symm.trans htarget) (by simp)
        rw [Machine.after_of_ne ht] at htarget howner
        have hserved' := hserved ⟨⟨target, requested, htarget, hrequested, hle⟩, howner⟩
        have hsame : (m.after u m.memory { m.thread u with
            pc := call.entry (m.thread u) }).thread t = m.thread t :=
          Machine.after_of_ne ht
        exact
          { included := included_of_le hm' (hsame ▸ hserved'.included.1)
            passed := fun h => hsame ▸ hserved'.passed h
            counted := fun index' stage requested count next h =>
              hsame ▸ hserved'.counted index' stage requested count next h }
    | thread haccess hperforms => exact served_thread hm haccess hperforms hserved hm' hserves
    | consumer hperforms => exact served_consumer hm hperforms hsync hserved hm' hserves

/-- Where every ticket is read by a consumer that knows the records before it, flushes are
complete. -/
theorem flushContract_of_synchronised (h : (orders maxProducers).ReachableWhere Synchronised m) :
    FlushContract m :=
  { included := fun _ _ _ hserves => (served_of_synchronised h hserves).included
    consumed := fun _ _ _ hserves _ hpc =>
      (served_of_synchronised h hserves).passed (by rw [hpc]; trivial) }

/-- What the consumer knows of the flushes whose tickets it reads, it knows before. -/
theorem included_iff_synchronised (h : (orders maxProducers).Reachable m) {i seq : ℕ}
    {drained : Bool} (hpc : m.consumer.pc = .readRequested seq drained)
    (hstep : (orders maxProducers).step m (.consumer i) = some m') :
    (∀ t pages index, Serves m' t pages index → Included m' t pages index) ↔
      Synchronised m (.consumer i) := by
  have hm' := h.step hstep
  have hs := sound_of_reachable h
  cases step_kind hstep with
  | consumer hperforms =>
      have hview := hperforms.view_le .consumer
      simp only [ConsumerState.access, hpc] at hperforms
      cases hperforms with
      | @read _ _ _ message hpast hmessage =>
          constructor
          · intro hincluded i' seq' drained' message' t target pages index hi hpc' hmessage' htarget
              hle howner hpos
            obtain rfl := Action.consumer.inj hi
            obtain rfl := Option.some.inj (hmessage.symm.trans hmessage')
            have hknown := (hincluded t pages index
              ⟨⟨target, message.value, htarget, rfl, hle⟩, howner⟩).1
            refine heard_of_view h hpos ?_
            -- the ticket's message carries nothing
            have hbare := (tickets_of_reachable h).bare i message hmessage (.tail pages index)
              (by simp)
            change _ ≤ (m.memory.reads _ _ _ _ _).view _ _ at hknown
            rw [Memory.reads_view_self] at hknown
            simpa [Order.acquires, hbare] using hknown
          · intro hsync t pages index hserves
            obtain ⟨⟨target, requested, htarget, hrequested, hle⟩, howner⟩ := hserves
            obtain rfl := Option.some.inj hrequested
            have hknown := hsync.le hs hpc hmessage htarget hle howner
            exact included_of_le hm' (hknown.trans (hview _))

/-- `wake_seq` is how a ticket that is read after its bump brings the records with it. -/
theorem synchronised_of_sampled (h : (orders maxProducers).Reachable m) (hsampled : Sampled m a) :
    Synchronised m a := by
  intro i seq drained message t target pages index ha hpc hmessage htarget hle howner _
  obtain ⟨hwoken, hbump⟩ := hsampled i seq drained message t target ha hpc hmessage htarget hle
  apply heard_of_sampled h _ hwoken hbump howner
  rw [hpc]
  rfl

/-- Flushes are complete in a run whose tickets are all read in time, in particular by passes that
sampled `wake_seq` after the bump. Where one is not, the consumer misses records that were
published before the flush. -/
theorem flushContract_iff_synchronised (h : (orders maxProducers).Reachable m) :
    ((orders maxProducers).ReachableWhere Synchronised m → FlushContract m) ∧
      ((orders maxProducers).ReachableWhere Sampled m → FlushContract m) ∧
      ∀ i seq drained m', m.consumer.pc = .readRequested seq drained →
        (orders maxProducers).step m (.consumer i) = some m' →
          ((∀ t pages index, Serves m' t pages index → Included m' t pages index) ↔
            Synchronised m (.consumer i)) := by
  refine ⟨flushContract_of_synchronised, fun hsampled => ?_, ?_⟩
  · apply flushContract_of_synchronised
    exact hsampled.mono fun m a hm => synchronised_of_sampled hm
  · intro i seq drained m' hpc hstep
    exact included_iff_synchronised h hpc hstep

/-! ## A flush in time and one that is not -/

def Action.thread? : Action → Option ℕ
  | .call t _ | .thread t _ => some t
  | .consumer _ => none

/-- Threads that do nothing stay where they are. -/
theorem run_thread_of_ne {actions : List Action}
    (hrun : (orders maxProducers).run m actions = some m')
    (ht : ∀ a ∈ actions, a.thread? ≠ some t) : m'.thread t = m.thread t := by
  induction actions generalizing m with
  | nil =>
      obtain rfl : m = m' := by simpa [System.run] using hrun
      rfl
  | cons a actions ih =>
      obtain ⟨next, hnext, hrest⟩ := Option.bind_eq_some_iff.mp hrun
      have hself := ht a List.mem_cons_self
      rw [ih hrest fun b hb => ht b (List.mem_cons_of_mem a hb)]
      cases step_kind hnext with
      | call | thread => exact Machine.after_of_ne fun heq => hself (congrArg some heq.symm)
      | consumer => rfl

/-- The consumer is about to load `flush_requested`. -/
def Machine.asks (m : Machine) : Bool :=
  match m.consumer.pc with
  | .readRequested _ _ => true
  | _ => false

theorem sampled_of_not_asks (h : m.asks = false) : Sampled m a := by
  intro i seq drained message t target _ hpc
  simp [Machine.asks, hpc] at h

/-- Thread 0 registers, publishes a record and notes it. -/
def demoLog : List Action := .call 0 (.log .normal) :: List.replicate 7 (.thread 0 0)

/-- Thread 0 takes the ticket of a flush, wakes the consumer and waits. -/
def demoFlush : List Action := .call 0 .flush :: List.replicate 3 (.thread 0 0)

/-- The consumer samples `wake_seq` after that, and is about to load the ticket. -/
def demoPass : List Action :=
  List.flatten [demoLog, demoFlush, [2, 1, 0, 1, 1, 0, 1, 0].map .consumer]

/-- It serves the flush. -/
def demoServe : List Action := [0, 1, 1, 1, 0, 1, 0].map .consumer

/-- The consumer is in a pass that has sampled the bump of the only flush. -/
theorem sampled_in_time (hrun : (orders 2).run .initial demoPass = some m)
    (hpc : (m.thread 0).pc = .waitFlush 1) (hview : m.memory.view (.thread 0) .wakeSeq = 2)
    (hconsumer : m.consumer.pc = .readRequested 2 true) (i : ℕ) : Sampled m (.consumer i) := by
  have hother : ∀ t, t ≠ 0 → (m.thread t).pc.target? = none := fun t ht => by
    rw [run_thread_of_ne hrun (by
      simp [demoPass, demoLog, demoFlush, Action.thread?, Ne.symm ht])]
    rfl
  intro _ seq drained message t target _ hreads _ htarget _
  by_cases ht : t = 0
  · subst ht
    obtain ⟨rfl, -⟩ := ConsumerPc.readRequested.inj (hconsumer.symm.trans hreads)
    rw [hpc, hview]
    exact ⟨trivial, Nat.le_refl 2⟩
  · rw [hother t ht] at htarget
    simp at htarget

theorem flushContract_in_time :
    ∃ m, (orders 2).Reachable m ∧ (m.thread 0).pc = .waitFlush 1 ∧ (m.thread 0).tail .normal = 1 ∧
      m.consumer.pc = .storeCompleted 1 ∧ m.consumer.head .normal 0 = 1 ∧ FlushContract m := by
  have hpass : ((orders 2).runWhere (fun m _ => m.asks = false) .initial demoPass).map
      (fun m => ((m.thread 0).pc, m.memory.view (.thread 0) .wakeSeq, m.consumer.pc)) =
        some (.waitFlush 1, 2, .readRequested 2 true) := by
    decide +kernel
  have hserve : ((((orders 2).run .initial demoPass).bind
      fun m => (orders 2).step m (.consumer 1)).bind
        fun m => (orders 2).runWhere (fun m _ => m.asks = false) m demoServe).map
      (fun m => ((m.thread 0).pc, (m.thread 0).tail .normal, m.consumer.pc,
        m.consumer.head .normal 0)) = some (.waitFlush 1, 1, .storeCompleted 1, 1) := by
    decide +kernel
  obtain ⟨m, hm, hfacts⟩ := Option.map_eq_some_iff.mp hpass
  simp only [Prod.mk.injEq] at hfacts
  obtain ⟨hwaits, hview, hasks⟩ := hfacts
  have hrun := System.run_of_runWhere hm
  obtain ⟨last, hlast, hfacts⟩ := Option.map_eq_some_iff.mp hserve
  rw [hrun, Option.bind_some, Option.bind_eq_some_iff] at hlast
  obtain ⟨asked, hask, hrest⟩ := hlast
  simp only [Prod.mk.injEq] at hfacts
  obtain ⟨hpc, htail, hconsumer, hhead⟩ := hfacts
  have hinitial : (orders 2).ReachableWhere Sampled .initial := .initial rfl
  have hquiet : ∀ m a, m.asks = false → Sampled m a := fun _ _ => sampled_of_not_asks
  have hsampled : (orders 2).ReachableWhere Sampled last :=
    ((hinitial.runWhere_of hquiet hm).step
      (sampled_in_time hrun hwaits hview hasks 1) hask).runWhere_of hquiet hrest
  exact ⟨last, hsampled.reachable, hpc, htail, hconsumer, hhead,
    (flushContract_iff_synchronised hsampled.reachable).2.1 hsampled⟩

/-- The consumer finds nothing, thread 0 publishes a record and flushes, and the consumer then
loads the ticket but an old count. -/
def demoStale : List Action :=
  List.flatten
    [[0, 0, 0].map .consumer, demoLog, demoFlush, [1, 0, 0, 0].map .consumer]

/-- It is about to let the flush return, and has not consumed the record. -/
theorem not_flushContract_stale :
    ∃ m, (orders 2).Reachable m ∧ (m.thread 0).pc = .waitFlush 1 ∧
      (m.thread 0).tls .normal = some 0 ∧ (m.thread 0).tail .normal = 1 ∧
      m.consumer.pc = .storeCompleted 1 ∧ m.consumer.head .normal 0 = 0 ∧
      m.memory.view .consumer (.tail .normal 0) = 0 ∧
      m.memory.view .consumer (.count .normal) = 0 ∧ ¬ FlushContract m := by
  have hrun : ((orders 2).run .initial demoStale).map (fun m =>
      (((m.thread 0).pc, (m.thread 0).tls .normal, (m.thread 0).tail .normal), m.consumer.pc,
        m.consumer.head .normal 0, m.memory.view .consumer (.tail .normal 0),
        m.memory.view .consumer (.count .normal))) =
      some ((.waitFlush 1, some 0, 1), .storeCompleted 1, 0, 0, 0) := by
    decide +kernel
  obtain ⟨m, hm, hfacts⟩ := Option.map_eq_some_iff.mp hrun
  simp only [Prod.mk.injEq] at hfacts
  obtain ⟨⟨hpc, htls, htail⟩, hconsumer, hhead, hview, hcount⟩ := hfacts
  refine ⟨m, .run (.initial rfl) hm, hpc, htls, htail, hconsumer, hhead, hview, hcount, ?_⟩
  intro hcontract
  have hserves : Serves m 0 .normal 0 :=
    ⟨⟨1, 1, by rw [hpc]; rfl, by rw [hconsumer]; rfl, Nat.le_refl 1⟩, htls⟩
  have hconsumed := hcontract.consumed 0 .normal 0 hserves 1 hconsumer
  rw [htail, hhead] at hconsumed
  omega

end Unlog.Orders
