import Unlog.Handoff.Reclaim

/-! # Threads come and go

Threads that run one after another, each followed by a flush, share one producer. -/

namespace Unlog.Handoff

open Library

variable {conf : Sealed} {s s' : State} {t f : ℕ} {pages : Pages} {a : Action}

/-! ## Thread-local producers -/

/-- A thread gets a producer where it acquires, and loses it where it retires. -/
theorem ThreadStep.tls (hstep : ThreadStep conf s t s') :
    s'.tls = s.tls ∨ ∃ pages, (∀ other pages', other ≠ t ∨ pages' ≠ pages →
        s'.tls other pages' = s.tls other pages') ∧
      ((∃ purpose, s.pc t = .acquire pages purpose ∧ s'.tls t pages ≠ none) ∨
        ∃ index, s.pc t = .retire pages index ∧ s'.tls t pages = none) := by
  cases hstep with
  | recycle hpc | create hpc =>
      refine .inr ⟨_, fun other pages' hne => State.setTls_tls_of_ne _ hne, .inl ⟨_, hpc, ?_⟩⟩
      change State.tls (State.setTls _ _ _ _) _ _ ≠ none
      rw [State.setTls_tls_self]
      simp
  | retire hpc | retireLost hpc =>
      refine .inr ⟨_, fun other pages' hne => State.setTls_tls_of_ne _ hne, .inr ⟨_, hpc, ?_⟩⟩
      exact State.setTls_tls_self _
  | publishBit | publishRetired => exact .inl State.publishReadyBit_tls
  | wake => rename_i waker _; cases waker <;> exact .inl rfl
  | _ => exact .inl rfl

theorem ThreadStep.released (hstep : ThreadStep conf s t s') {index : ℕ}
    (hpc : s.pc t = .retire pages index) : s'.tls t pages = none := by
  cases hstep with
  | @retire pages' index' hpc' | @retireLost pages' index' hpc' =>
      obtain ⟨rfl, rfl⟩ := ThreadPc.retire.inj (hpc.symm.trans hpc')
      exact State.setTls_tls_self _
  | move hmove =>
      rw [hpc] at hmove
      cases hmove
  | _ => simp_all

/-- A registry grows when its free list is empty and a thread acquires. -/
theorem ThreadStep.grows (hstep : ThreadStep conf s t s')
    (h : (s'.registry pages).count ≠ (s.registry pages).count) :
    (∃ purpose, s.pc t = .acquire pages purpose) ∧
      (s.registry pages).freeHead = conf.maxProducers ∧
      (s'.registry pages).count = (s.registry pages).size + 1 := by
  cases hstep with
  | @create pages' purpose hpc hhead hsize =>
      by_cases hp : pages = pages'
      · subst hp
        refine ⟨⟨purpose, hpc⟩, hhead, ?_⟩
        exact congrArg Registry.count (State.setRegistry_registry_self _)
      · exact absurd (congrArg Registry.count (State.setRegistry_registry_of_ne _ hp)) h
  | @recycle pages' =>
      refine absurd ?_ h
      by_cases hp : pages = pages'
      · subst hp
        exact (congrArg Registry.count (State.setRegistry_registry_self _)).trans rfl
      · exact congrArg Registry.count (State.setRegistry_registry_of_ne _ hp)
  | publishBit | publishRetired =>
      exact absurd (extent_eq (Prod.mk.inj (publishReadyBit_shape s _ pages)).1).2.2 h
  | wake => rename_i waker _; cases waker <;> exact absurd rfl h
  | _ => exact absurd rfl h

theorem ConsumerStep.tls_eq (hstep : ConsumerStep conf s s') : s'.tls = s.tls := by
  cases hstep with
  | repost => exact State.publishReadyBit_tls
  | _ => rfl

theorem ConsumerStep.count_eq (hstep : ConsumerStep conf s s') (pages : Pages) :
    (s'.registry pages).count = (s.registry pages).count := by
  cases hstep with
  | @takeWord round pages' =>
      change ((s.setRegistry pages' _).registry pages).count = _
      by_cases hp : pages = pages'
      · subst hp
        rw [State.setRegistry_registry_self]
      · rw [State.setRegistry_registry_of_ne _ hp]
  | @pushFree round resume p =>
      change (((s.setProducer p _).setRegistry p.pages _).registry pages).count = _
      by_cases hp : pages = p.pages
      · subst hp
        rw [State.setRegistry_registry_self]
      · rw [State.setRegistry_registry_of_ne _ hp]
        rfl
  | repost => exact (extent_eq (Prod.mk.inj (publishReadyBit_shape s _ pages)).1).2.2
  | _ => rfl

/-! ## Capacity -/

/-- Only producers in use, retired, or just being pushed are missing in the free list. -/
theorem taken_of_empty (hown : Ownership conf s)
    (hhead : (s.registry pages).freeHead = conf.maxProducers) (i : ℕ) :
    (s.producer (.pooled pages i)).lifecycle = .free → Pushing s pages i := by
  intro hfree
  obtain ⟨list, hlist⟩ := (hown.registry pages).freeing.freeList
  have hnil : list = [] := by
    have hchain := hlist.chain
    rw [FreeChain, hhead] at hchain
    cases hchain with
    | nil => rfl
    | cons hne _ => exact absurd rfl hne
  refine (hlist.complete i hfree).resolve_left ?_
  rw [hnil]
  exact List.not_mem_nil

/-- Nobody holds a producer and none is on its way back: all of them are in the free list. -/
theorem rested (hown : Ownership conf s) (htls : ∀ t, s.tls t pages = none)
    (hpending : ∀ i, ¬ Pending s (.pooled pages i))
    (hhead : (s.registry pages).freeHead = conf.maxProducers) : (s.registry pages).count = 0 := by
  by_contra hne
  have hlt : 0 < (s.registry pages).count := Nat.pos_of_ne_zero hne
  cases hlife : (s.producer (.pooled pages 0)).lifecycle with
  | active =>
      obtain ⟨t, ht⟩ := (hown.registry pages).holding.owned 0 hlt hlife
      rw [htls t] at ht
      contradiction
  | retired => exact hpending 0 (.inl hlife)
  | free => exact hpending 0 (.inr (pushing_iff.mp (taken_of_empty hown hhead 0 hlife)))

/-! ## Turns -/

/-- Which thread runs: it works, exits, or flushes for one that did. -/
inductive Turn where
  | rest
  | working (t : ℕ)
  | leaving (t : ℕ)
  | flushing (t : ℕ)
  deriving DecidableEq, Repr

def Turn.thread? : Turn → Option ℕ
  | .rest => none
  | .working t | .leaving t | .flushing t => some t

/-- What a thread may call before it exits. -/
def Call.Works (pages : Pages) : Call → Prop
  | .release pages' => pages' ≠ pages
  | .processExit | .reset => False
  | _ => True

/-- Threads run one after another, and after each exit somebody flushes; the consumer runs at
any time. -/
inductive Churn (conf : Sealed) (pages : Pages) : State → Turn → Prop
  | start (level : ℕ → LogLevel) : Churn conf pages (State.started conf level) .rest
  | begin {s : State} (t : ℕ) (h : Churn conf pages s .rest) : Churn conf pages s (.working t)
  | work {s s' : State} {t : ℕ} {a : Action} (h : Churn conf pages s (.working t))
      (ha : a.thread? = some t ∨ a = .consumer) (hcall : ∀ call, a = .call t call → call.Works pages)
      (hstep : step conf s a = some s') : Churn conf pages s' (.working t)
  | leave {s s' : State} {t : ℕ} (h : Churn conf pages s (.working t))
      (hstep : step conf s (.call t (.release pages)) = some s') : Churn conf pages s' (.leaving t)
  | leaving {s s' : State} {t : ℕ} {a : Action} (h : Churn conf pages s (.leaving t))
      (ha : a = .thread t ∨ a = .consumer ∨ ∃ pages', a = .call t (.release pages'))
      (hstep : step conf s a = some s') : Churn conf pages s' (.leaving t)
  | flush {s s' : State} {t : ℕ} (f : ℕ) (h : Churn conf pages s (.leaving t))
      (hidle : s.pc t = .idle) (hstep : step conf s (.call f .flush) = some s') :
      Churn conf pages s' (.flushing f)
  | flushing {s s' : State} {f : ℕ} {a : Action} (h : Churn conf pages s (.flushing f))
      (ha : a = .thread f ∨ a = .consumer) (hstep : step conf s a = some s') :
      Churn conf pages s' (.flushing f)
  | rest {s : State} {f : ℕ} (h : Churn conf pages s (.flushing f)) (hidle : s.pc f = .idle) :
      Churn conf pages s .rest

/-! ## Where the threads stand -/

/-- The accesses of an exiting thread. -/
def ThreadPc.exiting : ThreadPc → Bool
  | .idle | .retire _ _ | .publishRetired _ _ | .wake .retire => true
  | _ => false

theorem Next.exiting {pc next : ThreadPc} (hnext : Next conf s t pc next) (hpc : pc ≠ .idle)
    (h : pc.exiting = true) : next.exiting = true := by
  cases hnext with
  | move hmove => cases hmove <;> contradiction
  | retire | retireLost | publishRetired | wakeRetire => rfl
  | _ => contradiction

/-- Only a call begins a retirement or a shutdown. -/
theorem Next.called {pc next : ThreadPc} (hnext : Next conf s t pc next) (hpc : pc ≠ .idle)
    (h : pc.final? = none) : next.final? = none ∧ ∀ index, next ≠ .retire pages index := by
  cases hnext with
  | move hmove => cases hmove <;> first | contradiction | exact ⟨rfl, by simp⟩
  | _ => first | contradiction | exact ⟨rfl, by simp⟩

theorem entry_of_works {call : Call} (h : call.Works pages) :
    (call.entry s t).final? = none ∧ ∀ index, call.entry s t ≠ .retire pages index := by
  cases call with
  | release pages' =>
      simp only [Call.entry]
      split
      · exact ⟨rfl, by simp⟩
      · refine ⟨rfl, fun index heq => h ?_⟩
        exact (ThreadPc.retire.inj heq).1
  | processExit | reset => exact h.elim
  | _ => exact ⟨rfl, by simp [Call.entry]⟩

theorem ThreadStep.lifecycle_eq_of_ne (hstep : ThreadStep conf s t s')
    (hdestroy : ∀ final, s.pc t ≠ .destroy final)
    (hfinish : ∀ final, s.pc t ≠ .finishDestroy final) : s'.lifecycle = s.lifecycle := by
  cases hstep with
  | destroy hpc => exact absurd hpc (hdestroy _)
  | finishDestroy _ hpc => exact absurd hpc (hfinish _)
  | publishBit | publishRetired =>
      obtain ⟨registry, hr⟩ := State.publishReadyBit_eq s _
      rw [hr]
      rfl
  | wake => rename_i waker _; cases waker <;> rfl
  | _ => rfl

theorem ThreadStep.lifecycle_eq (hstep : ThreadStep conf s t s') (h : (s.pc t).final? = none) :
    s'.lifecycle = s.lifecycle := by
  refine hstep.lifecycle_eq_of_ne ?_ ?_ <;>
    · intro final hpc
      rw [hpc] at h
      contradiction

/-- A call, a step of a thread that is in a call, or a step of the consumer. -/
inductive StepKind (conf : Sealed) (s : State) : Action → State → Prop
  | call (t : ℕ) (call : Call) (hidle : s.pc t = .idle) :
      StepKind conf s (.call t call) (s.setPc t (call.entry s t))
  | thread {a : Action} {s' : State} (t : ℕ) (ha : a.thread? = some t) (hbusy : s.pc t ≠ .idle)
      (h : ThreadStep conf s t s') : StepKind conf s a s'
  | consumer {s' : State} (h : ConsumerStep conf s s') : StepKind conf s .consumer s'

theorem step_kind (hstep : step conf s a = some s') : StepKind conf s a s' := by
  cases a with
  | call t call =>
      simp only [step] at hstep
      split at hstep
      case isTrue hidle =>
        obtain rfl := Option.some.inj hstep
        exact .call t call hidle
      case isFalse => contradiction
  | produce t outcome =>
      simp only [step] at hstep
      split at hstep
      case h_1 channel p hpc =>
        obtain rfl := Option.some.inj hstep
        exact .thread t rfl (by simp [hpc]) (produceStep_cases hpc outcome)
      case h_2 => contradiction
  | thread t =>
      refine .thread t rfl (fun hidle => ?_) (threadStep_cases hstep)
      simp [step, threadStep, hidle] at hstep
  | consumer => exact .consumer (consumerStep_cases hstep)

/-- Who does not step keeps its place and its producers. -/
theorem step_other (hstep : step conf s a = some s') (ht : a.thread? ≠ some t) :
    s'.pc t = s.pc t ∧ s'.tls t = s.tls t := by
  refine ⟨step_pc_of_ne hstep ht, ?_⟩
  cases step_kind hstep with
  | call => rfl
  | thread t' ha _ h =>
      have hne : t ≠ t' := by
        rintro rfl
        exact ht ha
      rcases h.tls with hsame | ⟨pages, hother, -⟩
      · rw [hsame]
      · exact funext fun pages' => hother t pages' (.inl hne)
  | consumer h => rw [h.tls_eq]

/-- A registry grows only where a thread acquires. -/
theorem step_count (hstep : step conf s a = some s')
    (hnot : ∀ t purpose, a.thread? = some t → s.pc t ≠ .acquire pages purpose) :
    (s'.registry pages).count = (s.registry pages).count := by
  cases step_kind hstep with
  | call => rfl
  | thread t ha _ h =>
      by_contra hne
      obtain ⟨⟨purpose, hpc⟩, -, -⟩ := h.grows hne
      exact hnot t purpose ha hpc
  | consumer h => exact h.count_eq pages

/-- Nobody shuts the runtime down. -/
def Calm (s : State) : Prop := s.lifecycle = .running ∧ ∀ t, (s.pc t).final? = none

theorem Calm.step (h : Calm s) (hstep : Handoff.step conf s a = some s')
    (hcall : ∀ t call, a = .call t call → (call.entry s t).final? = none) : Calm s' := by
  obtain ⟨hrunning, hfinal⟩ := h
  cases step_kind hstep with
  | call t call hidle =>
      refine ⟨hrunning, fun other => ?_⟩
      by_cases hother : other = t
      · subst hother
        rw [State.setPc_pc_self]
        exact hcall _ call rfl
      · rw [State.setPc_pc_of_ne _ hother]
        exact hfinal other
  | thread t _ hbusy h =>
      refine ⟨(h.lifecycle_eq (hfinal t)).trans hrunning, fun other => ?_⟩
      by_cases hother : other = t
      · subst hother
        have hcalled : _ ∧ ∀ index, s'.pc other ≠ .retire .normal index :=
          h.next.called hbusy (hfinal _)
        exact hcalled.1
      · rw [h.pc_of_ne hother]
        exact hfinal other
  | consumer h =>
      refine ⟨h.control_eq.1.trans hrunning, fun other => ?_⟩
      rw [h.pc_eq]
      exact hfinal other

/-! ## The invariant -/

/-- What holds of the thread whose turn it is. -/
def Turn.Place (s : State) (pages : Pages) : Turn → Prop
  | .rest => ∀ i, ¬ Pending s (.pooled pages i)
  | .working t => (∀ index, s.pc t ≠ .retire pages index) ∧
      (s.tls t pages = none → ∀ i, ¬ Pending s (.pooled pages i))
  | .leaving t => (s.pc t).exiting = true ∧
      (s.tls t pages = none ∨ ∃ index, s.pc t = .retire pages index)
  | .flushing f => s.tls f pages = none ∧
      (s.pc f = .idle ∧ (∀ i, ¬ Pending s (.pooled pages i)) ∨
        (s.pc f).before? ≠ none ∧ ∀ i, Pending s (.pooled pages i) → Awaits s f (.pooled pages i))

structure ChurnSound (conf : Sealed) (s : State) (pages : Pages) (turn : Turn) : Prop where
  reachable : (handoff conf).Reachable s
  calm : Calm s
  others : ∀ t, turn.thread? ≠ some t → s.pc t = .idle ∧ s.tls t pages = none
  one : (s.registry pages).count ≤ 1
  place : turn.Place s pages

/-- The thread whose turn it is steps, or the consumer. -/
theorem ChurnSound.step {turn turn' : Turn} (h : ChurnSound conf s pages turn)
    (hturn : turn'.thread? = turn.thread?) (ha : a.thread? = turn.thread? ∨ a = .consumer)
    (hcall : ∀ t call, a = .call t call → (call.entry s t).final? = none)
    (hstep : Handoff.step conf s a = some s') (hone : (s'.registry pages).count ≤ 1)
    (hplace : turn'.Place s' pages) : ChurnSound conf s' pages turn' where
  reachable := h.reachable.step hstep
  calm := h.calm.step hstep hcall
  others t ht := by
    rw [hturn] at ht
    have hother : a.thread? ≠ some t := by
      rcases ha with ha | rfl
      · rwa [ha]
      · nofun
    obtain ⟨hpc, htls⟩ := step_other hstep hother
    rw [hpc, htls]
    exact h.others t ht
  one := hone
  place := hplace

/-- A working thread makes the first producer, or takes the one there is. -/
theorem ChurnSound.one_work (h : ChurnSound conf s pages (.working t))
    (ha : a.thread? = some t ∨ a = .consumer) (hstep : Handoff.step conf s a = some s') :
    (s'.registry pages).count ≤ 1 := by
  have hown := ownership_of_reachable h.reachable
  by_cases hsame : (s'.registry pages).count = (s.registry pages).count
  · rw [hsame]
    exact h.one
  cases step_kind hstep with
  | call => exact absurd rfl hsame
  | consumer hconsumer => exact absurd (hconsumer.count_eq pages) hsame
  | thread t' ha' _ hthread =>
      obtain ⟨⟨purpose, hpc⟩, hhead, hcount⟩ := hthread.grows hsame
      obtain rfl : t' = t := by
        rcases ha with ha | rfl
        · rw [ha] at ha'
          exact (Option.some.inj ha').symm
        · contradiction
      have hnone := (hown.pc t').acquiring pages purpose hpc
      have htls : ∀ other, s.tls other pages = none := by
        intro other
        by_cases hother : other = t'
        · rw [hother]
          exact hnone
        · exact (h.others other (by simpa [Turn.thread?] using Ne.symm hother)).2
      have hzero := rested hown htls (h.place.2 hnone) hhead
      rw [hcount, (hown.registry pages).layout.size_eq, hzero]

theorem ChurnSound.place_work (h : ChurnSound conf s pages (.working t))
    (ha : a.thread? = some t ∨ a = .consumer) (hcall : ∀ call, a = .call t call → call.Works pages)
    (hstep : Handoff.step conf s a = some s') : (Turn.working t).Place s' pages := by
  have hown := ownership_of_reachable h.reachable
  obtain ⟨hretire, hpending⟩ := h.place
  cases step_kind hstep with
  | call t' call hidle =>
      obtain rfl : t' = t := by simpa [Action.thread?] using ha
      refine ⟨?_, hpending⟩
      rw [State.setPc_pc_self]
      exact (entry_of_works (hcall call rfl)).2
  | consumer hconsumer =>
      refine ⟨?_, fun hnone i hp => ?_⟩
      · rw [hconsumer.pc_eq]
        exact hretire
      · rw [hconsumer.tls_eq] at hnone
        exact hpending hnone i ((hconsumer.pending _).1 hp)
  | thread t' ha' hbusy hthread =>
      obtain rfl : t' = t := by
        rcases ha with ha | rfl
        · rw [ha] at ha'
          exact (Option.some.inj ha').symm
        · contradiction
      refine ⟨(hthread.next.called hbusy (h.calm.2 t')).2, fun hnone i hp => ?_⟩
      have hbefore : s.tls t' pages = none := by
        rcases hthread.tls with hsame | ⟨pages', hother, hcase⟩
        · rwa [hsame] at hnone
        · by_cases hpages : pages = pages'
          · subst hpages
            rcases hcase with ⟨purpose, -, hsome⟩ | ⟨index, hpc, -⟩
            · exact absurd hnone hsome
            · exact absurd hpc (hretire index)
          · rwa [hother t' pages (.inr hpages)] at hnone
      refine hpending hbefore i ((hthread.pending_of hown hp).resolve_right ?_)
      rintro ⟨pages', index, hi, hpc, -⟩
      obtain ⟨rfl, rfl⟩ := ProducerId.pooled.inj hi
      exact hretire i hpc

/-- An exiting thread lets its producer go. -/
theorem ChurnSound.place_leaving (h : ChurnSound conf s pages (.leaving t))
    (ha : a = .thread t ∨ a = .consumer ∨ ∃ pages', a = .call t (.release pages'))
    (hstep : Handoff.step conf s a = some s') : (Turn.leaving t).Place s' pages := by
  obtain ⟨hexiting, htls⟩ := h.place
  cases step_kind hstep with
  | call t' call hidle =>
      have hrelease : t' = t ∧ ∃ pages', call = .release pages' := by simpa using ha
      obtain ⟨rfl, pages', rfl⟩ := hrelease
      have hnone : s.tls t' pages = none := by
        refine htls.resolve_right ?_
        rintro ⟨index, hpc⟩
        rw [hidle] at hpc
        contradiction
      refine ⟨?_, .inl hnone⟩
      rw [State.setPc_pc_self, Call.entry]
      split <;> rfl
  | consumer hconsumer =>
      rw [Turn.Place, hconsumer.pc_eq, hconsumer.tls_eq]
      exact ⟨hexiting, htls⟩
  | thread t' ha' hbusy hthread =>
      obtain rfl : t' = t := by
        rcases ha with rfl | rfl | ⟨pages', rfl⟩
        · exact (Option.some.inj ha').symm
        · contradiction
        · exact (Option.some.inj ha').symm
      refine ⟨hthread.next.exiting hbusy hexiting, .inl ?_⟩
      rcases htls with hnone | ⟨index, hpc⟩
      · rcases hthread.tls with hsame | ⟨pages', hother, hcase⟩
        · rw [hsame]
          exact hnone
        · by_cases hpages : pages = pages'
          · subst hpages
            rcases hcase with ⟨purpose, hpc, -⟩ | ⟨index, -, hnone'⟩
            · rw [hpc] at hexiting
              contradiction
            · exact hnone'
          · rw [hother t' pages (.inr hpages)]
            exact hnone
      · exact hthread.released hpc

/-- The flush waits for whatever is pending, and leaves nothing of it behind. -/
theorem ChurnSound.place_flushing (h : ChurnSound conf s pages (.flushing f))
    (ha : a = .thread f ∨ a = .consumer) (hstep : Handoff.step conf s a = some s') :
    (Turn.flushing f).Place s' pages := by
  have hown := ownership_of_reachable h.reachable
  have hmakings := makings_of_reachable h.reachable
  have hrunning := h.calm.1
  obtain ⟨hnone, hplace⟩ := h.place
  -- what is pending was pending, and was not just pushed
  have hback : ∀ i, Pending s' (.pooled pages i) →
      Pending s (.pooled pages i) ∧ pushes s a ≠ some (.pooled pages i) := by
    intro i hp
    cases step_kind hstep with
    | call => simp at ha
    | consumer hconsumer =>
        refine ⟨(hconsumer.pending _).1 hp, fun hpush => ?_⟩
        exact hconsumer.not_pending hown (pushes_consumer.mp hpush) hp
    | thread t' ha' hbusy hthread =>
        have hthread' : a = .thread f ∧ t' = f := by
          rcases ha with rfl | rfl
          · exact ⟨rfl, (Option.some.inj ha').symm⟩
          · contradiction
        obtain ⟨rfl, rfl⟩ := hthread'
        refine ⟨(hthread.pending_of hown hp).resolve_right ?_, nofun⟩
        rintro ⟨pages', index, -, hpc, -⟩
        rcases hplace with ⟨hidle, -⟩ | ⟨hcalling, -⟩
        · exact hbusy hidle
        · rw [hpc] at hcalling
          exact hcalling rfl
  have htls : s'.tls f pages = none := by
    cases step_kind hstep with
    | call => simp at ha
    | consumer hconsumer => rwa [hconsumer.tls_eq]
    | thread t' ha' hbusy hthread =>
        obtain rfl : t' = f := by
          rcases ha with rfl | rfl
          · exact (Option.some.inj ha').symm
          · contradiction
        rcases hplace with ⟨hidle, -⟩ | ⟨hcalling, -⟩
        · exact absurd hidle hbusy
        · rcases hthread.tls with hsame | ⟨pages', -, ⟨purpose, hpc, -⟩ | ⟨index, hpc, -⟩⟩
          · rwa [hsame]
          · rw [hpc] at hcalling
            exact absurd rfl hcalling
          · rw [hpc] at hcalling
            exact absurd rfl hcalling
  refine ⟨htls, ?_⟩
  rcases hplace with ⟨hidle, hpending⟩ | ⟨hcalling, hawaits⟩
  · refine .inl ⟨?_, fun i hp => hpending i (hback i hp).1⟩
    rcases ha with rfl | rfl
    · simp [Handoff.step, threadStep, hidle] at hstep
    · rw [(consumerStep_cases hstep).pc_eq, hidle]
  · by_cases hleave : ∃ target before, s.pc f = .flushLeave target before ∧ a = .thread f
    · obtain ⟨target, before, hpc, rfl⟩ := hleave
      refine .inl ⟨?_, fun i hp => ?_⟩
      · simp only [Handoff.step, threadStep, hpc, Option.some.injEq] at hstep
        subst hstep
        exact State.setPc_pc_self _
      · exact (hawaits i (hback i hp).1).stays h.reachable target before hpc
    · refine .inr ⟨?_, fun i hp => ?_⟩
      · rcases ha with rfl | rfl
        · refine calling_step (present_of_running h.reachable hrunning) hrunning hstep hcalling ?_
          exact fun target before hpc => hleave ⟨target, before, hpc, rfl⟩
        · rw [(consumerStep_cases hstep).pc_eq]
          exact hcalling
      · obtain ⟨hold, hpush⟩ := hback i hp
        exact ((hawaits i hold).step h.reachable hrunning hstep).resolve_left hpush

theorem churnSound {turn : Turn} (h : Churn conf pages s turn) : ChurnSound conf s pages turn := by
  induction h with
  | start level =>
      exact
        { reachable := .initial ⟨level, rfl⟩
          calm := ⟨rfl, fun _ => rfl⟩
          others := fun _ _ => ⟨rfl, rfl⟩
          one := Nat.zero_le _
          place := fun i => by rintro (h | h) <;> contradiction }
  | @begin s t _ ih =>
      obtain ⟨hidle, hnone⟩ := ih.others t nofun
      exact
        { reachable := ih.reachable
          calm := ih.calm
          others := fun other _ => ih.others other nofun
          one := ih.one
          place := ⟨by simp [hidle], fun _ => ih.place⟩ }
  | @work s s' t a _ ha hcall hstep ih =>
      refine ih.step rfl ha (fun t' call heq => ?_) hstep (ih.one_work ha hstep)
        (ih.place_work ha hcall hstep)
      obtain rfl : t' = t := by
        rcases ha with ha | rfl
        · rw [heq] at ha
          exact Option.some.inj ha
        · contradiction
      exact (entry_of_works (hcall call heq)).1
  | @leave s s' t _ hstep ih =>
      have hrelease : ∀ t' call, Action.call t (.release pages) = .call t' call →
          (call.entry s t').final? = none := by
        rintro t' call heq
        obtain ⟨rfl, rfl⟩ := Action.call.inj heq
        rw [Call.entry]
        split <;> rfl
      refine ih.step rfl (.inl rfl) hrelease hstep ?_ ?_
      · rw [step_count hstep]
        · exact ih.one
        · intro t' purpose ht' hpc
          obtain rfl := Option.some.inj ht'
          simp [Handoff.step, hpc] at hstep
      · cases step_kind hstep with
        | call _ _ hidle =>
            rw [Turn.Place, State.setPc_pc_self, Call.entry]
            cases htls : s.tls t pages with
            | none => exact ⟨rfl, .inl htls⟩
            | some index => exact ⟨rfl, .inr ⟨index, rfl⟩⟩
        | thread t' ha hbusy =>
            obtain rfl := Option.some.inj ha
            simp [Handoff.step, hbusy] at hstep
  | @leaving s s' t a _ ha hstep ih =>
      have hactor : a.thread? = some t ∨ a = .consumer := by
        rcases ha with rfl | rfl | ⟨pages', rfl⟩
        · exact .inl rfl
        · exact .inr rfl
        · exact .inl rfl
      refine ih.step rfl hactor (fun t' call heq => ?_) hstep ?_ (ih.place_leaving ha hstep)
      · subst heq
        have hrelease : t' = t ∧ ∃ pages', call = .release pages' := by simpa using ha
        obtain ⟨-, pages', rfl⟩ := hrelease
        rw [Call.entry]
        split <;> rfl
      · rw [step_count hstep]
        · exact ih.one
        · intro t' purpose ht' hpc
          have hexiting := ih.place.1
          rcases hactor with hactor | rfl
          · rw [hactor] at ht'
            obtain rfl := Option.some.inj ht'
            rw [hpc] at hexiting
            contradiction
          · contradiction
  | @flush s s' t f _ hidle hstep ih =>
      have hall : ∀ other, s.pc other = .idle ∧ s.tls other pages = none := by
        intro other
        by_cases hother : other = t
        · subst hother
          refine ⟨hidle, ih.place.2.resolve_right ?_⟩
          rintro ⟨index, hpc⟩
          rw [hidle] at hpc
          contradiction
        · exact ih.others other (by simpa [Turn.thread?] using Ne.symm hother)
      have hidle' := (hall f).1
      obtain rfl : s.setPc f (.flushState s.returned) = s' := by
        simpa [Handoff.step, hidle', Call.entry] using hstep
      exact
        { reachable := ih.reachable.step (a := .call f .flush) hstep
          calm := ih.calm.step hstep fun t' call heq => by
            obtain ⟨rfl, rfl⟩ := Action.call.inj heq
            rfl
          others := fun other hother => by
            have hne : other ≠ f := by
              rintro rfl
              exact hother rfl
            rw [State.setPc_pc_of_ne _ hne]
            exact hall other
          one := ih.one
          place := by
            refine ⟨(hall f).2, .inr ⟨?_, fun i hp => ?_⟩⟩
            · rw [State.setPc_pc_self]
              simp [ThreadPc.before?]
            · have hcall : (handoff conf).step s (.call f .flush) = some _ := hstep
              have hold : Pending s (.pooled pages i) := hp
              exact awaits_of_call hold hcall }
  | @flushing s s' f a _ ha hstep ih =>
      have hactor : a.thread? = some f ∨ a = .consumer := ha.imp_left (by rintro rfl; rfl)
      refine ih.step rfl hactor (fun t' call heq => ?_) hstep ?_ (ih.place_flushing ha hstep)
      · subst heq
        simp at ha
      · rw [step_count hstep]
        · exact ih.one
        · intro t' purpose ht' hpc
          rcases ha with rfl | rfl
          · obtain rfl := Option.some.inj ht'
            rcases ih.place.2 with ⟨hidle, -⟩ | ⟨hcalling, -⟩
            · rw [hidle] at hpc
              contradiction
            · rw [hpc] at hcalling
              exact hcalling rfl
          · contradiction
  | @rest s f _ hidle ih =>
      obtain ⟨hnone, hplace⟩ := ih.place
      refine
        { reachable := ih.reachable
          calm := ih.calm
          others := fun other _ => ?_
          one := ih.one
          place := ?_ }
      · by_cases hother : other = f
        · subst hother
          exact ⟨hidle, hnone⟩
        · exact ih.others other (by simpa [Turn.thread?] using Ne.symm hother)
      · rcases hplace with ⟨-, hpending⟩ | ⟨hcalling, -⟩
        · exact hpending
        · rw [hidle] at hcalling
          exact absurd rfl hcalling

/-! ## The contract -/

/-- A thread that gets no producer has found the registry exhausted. -/
theorem exhausted_of_none (hown : Ownership conf s) {purpose : Purpose}
    (hpc : s.pc t = .acquire pages purpose) (hstep : step conf s (.thread t) = some s')
    (hnone : s'.tls t pages = none) : (s.registry pages).freeHead = conf.maxProducers ∧
      conf.maxProducers ≤ (s.registry pages).count := by
  rw [← (hown.registry pages).layout.size_eq]
  simp only [step, threadStep, hpc, acquireStep] at hstep
  split at hstep
  case isTrue hhead =>
    split at hstep
    case h_1 => contradiction
    case h_2 index hslot =>
      obtain rfl := Option.some.inj hstep
      change State.tls (State.setTls _ _ _ _) _ _ = none at hnone
      rw [State.setTls_tls_self] at hnone
      contradiction
  case isFalse hhead =>
    split at hstep
    case isTrue hsize => exact ⟨not_not.mp hhead, hsize⟩
    case isFalse hsize =>
      obtain rfl := Option.some.inj hstep
      change State.tls (State.setTls _ _ _ _) _ _ = none at hnone
      rw [State.setTls_tls_self] at hnone
      contradiction

/-- The pushed producer is the first of the free list. -/
theorem head_of_push (hown : Ownership conf s) {i : ℕ}
    (hpush : pushes s .consumer = some (.pooled pages i)) (hstep : step conf s .consumer = some s') :
    (s'.registry pages).freeHead = i ∧ (s'.producer (.pooled pages i)).lifecycle = .free := by
  have hvisit := pushes_consumer.mp hpush
  have hconsumer := consumerStep_cases hstep
  refine ⟨?_, ?_⟩
  · obtain ⟨round, resume, hc⟩ := pushing_iff.mpr hvisit
    have hlt : i < (s.registry pages).count :=
      (hown.registry pages).freeing.visiting round resume i _ hc
    have hindex : (s.producer (.pooled pages i)).producerIndex = i :=
      (Prod.mk.inj (Prod.mk.inj ((hown.registry pages).layout.binding i hlt)).2).1
    simp only [step, consumerStep, hc, visitStep, Option.some.injEq] at hstep
    subst hstep
    refine (congrArg Registry.freeHead (State.setRegistry_registry_self _)).trans ?_
    exact hindex
  · rcases hconsumer.lifecycle (.pooled pages i) with hsame | ⟨-, -, hfree, -⟩
    · rw [hsame]
      exact free_of_pushing hown hvisit
    · exact hfree

/-- What becomes of the producers in a run from the start to `s`. -/
structure RecyclingContract (conf : Sealed) (s₀ : State) (actions : List Action) (s : State) :
    Prop where
  /-- Where `threadsafe_producer` throws. -/
  exhausted : ∀ t pages purpose s', s.pc t = .acquire pages purpose →
    step conf s (.thread t) = some s' → s'.tls t pages = none →
    ∀ i < conf.maxProducers, i < (s.registry pages).count ∧
      ((s.producer (.pooled pages i)).lifecycle = .active ∨
        (s.producer (.pooled pages i)).lifecycle = .retired ∨
        (s.producer (.pooled pages i)).lifecycle = .free ∧ Pushing s pages i)
  /-- One push for each retirement, but for the one that is pending. -/
  once : ∀ p, ((handoff conf).observe retires s₀ actions).count p =
    ((handoff conf).observe pushes s₀ actions).count p + if Pending s p then 1 else 0
  pushed : ∀ pages i s', pushes s .consumer = some (.pooled pages i) →
    step conf s .consumer = some s' →
    (s'.registry pages).freeHead = i ∧ (s'.producer (.pooled pages i)).lifecycle = .free
  /-- A flush called here returns after the push of all that is pending now. -/
  flushed : ∀ t actions' s' s'', (handoff conf).run s (.call t .flush :: actions') = some s' →
    s'.lifecycle = .running → step conf s' (.thread t) = some s'' → s''.pc t = .idle →
    ∀ p, Pending s p → p ∈ (handoff conf).observe pushes s (.call t .flush :: actions')
  blocked : ∀ seq, s.consumer = .wait seq → s.wakeSeq = seq →
    (∀ t, (s.pc t).announcing = false) → ∀ p, (s.producer p).lifecycle ≠ .retired

/-- Producers are recycled, never leaked, and threads one after another share one. -/
theorem recycling_of_run {level : ℕ → LogLevel} {actions : List Action}
    (hrun : (handoff conf).run (.started conf level) actions = some s) :
    RecyclingContract conf (.started conf level) actions s ∧
      ∀ pages s' turn, Churn conf pages s' turn → (s'.registry pages).count ≤ 1 := by
  have hinitial : (handoff conf).Reachable (.started conf level) := .initial ⟨level, rfl⟩
  have hreach := hinitial.run hrun
  have hown := ownership_of_reachable hreach
  refine ⟨?_, fun pages s' turn hchurn => (churnSound hchurn).one⟩
  exact
    { exhausted := fun t pages purpose s' hpc hstep hnone i hi => by
        obtain ⟨hhead, hcount⟩ := exhausted_of_none hown hpc hstep hnone
        refine ⟨Nat.lt_of_lt_of_le hi hcount, ?_⟩
        cases hlife : (s.producer (.pooled pages i)).lifecycle with
        | active => exact .inl rfl
        | retired => exact .inr (.inl rfl)
        | free => exact .inr (.inr ⟨rfl, taken_of_empty hown hhead i hlife⟩)
      once := fun p => by
        have hbalance : s.pending p +
            ((handoff conf).observe pushes (.started conf level) actions).countP (· == p) =
              (State.started conf level).pending p +
                ((handoff conf).observe retires (.started conf level) actions).countP (· == p) :=
          hinitial.observe_balance (fun s a s' hs hstep => pending_step hs hstep p) hrun
        have hnone : (State.started conf level).pending p = 0 :=
          if_neg (by rintro (h | h) <;> contradiction)
        rw [hnone, Nat.zero_add, Nat.add_comm] at hbalance
        exact hbalance.symm
      pushed := fun pages i s' hpush hstep => head_of_push hown hpush hstep
      flushed := fun t actions' s' s'' hflush hrunning hreturn hidle p hpending =>
        flush_pushes hreach hpending hflush hrunning hreturn hidle
      blocked := fun seq hwait hticket hquiet p =>
        (cell_of_blocked hreach hwait hticket hquiet p).2.2 }

/-- A thread logs and exits, and the consumer frees its producer. -/
theorem recycling_after_exit :
    ∃ s, (handoff demo).run (.started demo fun _ => .info) demoExit = some s ∧
      RecyclingContract demo (.started demo fun _ => .info) demoExit s ∧
      ((handoff demo).observe pushes (.started demo fun _ => .info) demoExit).count
        (.pooled .normal 0) = 1 := by
  have hrun : ((handoff demo).run (.started demo fun _ => .info) demoExit).map
      (fun s => s.consumer) = some (.wait 2) := by
    decide +kernel
  obtain ⟨s, hs, -⟩ := Option.map_eq_some_iff.mp hrun
  exact ⟨s, hs, (recycling_of_run hs).1, by decide +kernel⟩

end Unlog.Handoff
