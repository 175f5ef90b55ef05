import Unlog.Handoff.Exclusive

/-! # Which producers there are

Frames of the steps, and the producers that were made: nobody touches another one. -/

namespace Unlog.Handoff

variable {conf : Sealed} {s s' : State} {t : ℕ} {p : ProducerId}

/-! ## What a step leaves alone -/

namespace ThreadStep

variable (hstep : ThreadStep conf s t s')
include hstep

theorem consumer_eq : s'.consumer = s.consumer := by
  cases hstep with
  | publishBit | publishRetired => simp [State.setPc]
  | wake => rename_i waker _; cases waker <;> rfl
  | _ => rfl

theorem pc_of_ne {other : ℕ} (hne : other ≠ t) : s'.pc other = s.pc other := by
  cases hstep with
  | publishBit | publishRetired =>
      rw [State.setPc_pc_of_ne _ hne, State.publishReadyBit_pc]
  | wake => rename_i waker _; cases waker <;> exact State.setPc_pc_of_ne _ hne
  | _ => exact State.setPc_pc_of_ne _ hne

/-- A thread writes nothing to a sink and completes no flush. -/
theorem served_eq : s'.out = s.out ∧ s'.flushCompleted = s.flushCompleted := by
  cases hstep with
  | publishBit | publishRetired =>
      rename_i hpc
      obtain ⟨registry, hr⟩ := State.publishReadyBit_eq s _
      rw [hr]
      exact ⟨rfl, rfl⟩
  | wake => rename_i waker _; cases waker <;> exact ⟨rfl, rfl⟩
  | _ => exact ⟨rfl, rfl⟩

/-- Only `wake_consumer` bumps the wake sequence. -/
theorem wakeSeq_eq : (∃ waker, s.pc t = .wake waker) ∧ s'.wakeSeq = s.wakeSeq + 1 ∨
    (∀ waker, s.pc t ≠ .wake waker) ∧ s'.wakeSeq = s.wakeSeq := by
  cases hstep with
  | wake hpc =>
      rename_i waker
      refine .inl ⟨⟨waker, hpc⟩, ?_⟩
      cases waker <;> rfl
  | publishBit hpc | publishRetired hpc =>
      refine .inr ⟨by simp [hpc], ?_⟩
      obtain ⟨registry, hr⟩ := State.publishReadyBit_eq s _
      rw [hr]
      rfl
  | call call hpc => exact .inr ⟨by simp [hpc], rfl⟩
  | move hmove =>
      refine .inr ⟨fun waker hpc => ?_, rfl⟩
      rw [hpc] at hmove
      cases hmove
  | _ =>
      refine .inr ⟨fun waker hw => ?_, rfl⟩
      simp_all

end ThreadStep

namespace ConsumerStep

variable (hstep : ConsumerStep conf s s')
include hstep

theorem pc_eq : s'.pc = s.pc := by
  cases hstep with
  | repost => exact State.publishReadyBit_pc
  | _ => rfl

theorem wakeSeq_eq : s'.wakeSeq = s.wakeSeq := by
  cases hstep with
  | repost =>
      obtain ⟨registry, hr⟩ := State.publishReadyBit_eq s _
      rw [hr]
  | _ => rfl

end ConsumerStep

/-- The thread that takes an action. -/
def Action.thread? : Action → Option ℕ
  | .call t _ => some t
  | .produce t _ => some t
  | .thread t => some t
  | .consumer => none

theorem step_pc_of_ne {a : Action} (h : step conf s a = some s') (ht : a.thread? ≠ some t) :
    s'.pc t = s.pc t := by
  cases a with
  | call other call =>
      have hne : t ≠ other := by
        rintro rfl
        exact ht rfl
      simp only [step] at h
      split at h
      · obtain rfl := Option.some.inj h
        exact State.setPc_pc_of_ne _ hne
      · contradiction
  | produce other outcome =>
      have hne : t ≠ other := by
        rintro rfl
        exact ht rfl
      simp only [step] at h
      split at h
      · obtain rfl := Option.some.inj h
        exact (produceStep_cases (by assumption) outcome).pc_of_ne hne
      · contradiction
  | thread other =>
      have hne : t ≠ other := by
        rintro rfl
        exact ht rfl
      exact (threadStep_cases h).pc_of_ne hne
  | consumer => exact congrFun (consumerStep_cases h).pc_eq t

/-- A thread that takes no action stays where it is. -/
theorem run_pc_of_ne {actions : List Action} (h : (handoff conf).run s actions = some s')
    (ht : ∀ a ∈ actions, a.thread? ≠ some t) : s'.pc t = s.pc t := by
  induction actions generalizing s with
  | nil =>
      obtain rfl : s = s' := by simpa [Library.System.run] using h
      rfl
  | cons a actions ih =>
      obtain ⟨next, hnext, hrest⟩ := Option.bind_eq_some_iff.mp h
      rw [ih hrest fun b hb => ht b (List.mem_cons_of_mem _ hb)]
      exact step_pc_of_ne hnext (ht a List.mem_cons_self)

/-! ## The producers that were made -/

/-- `prepare_start` made the producer, or a registry holds it. -/
def Made (conf : Sealed) (s : State) : ProducerId → Prop
  | .single pages => conf.hasSingle pages = true
  | .pooled pages index => index < (s.registry pages).count

/-- Nothing was ever published, marked or retired here. -/
structure Producer.Untouched (producer : Producer) : Prop where
  queue : producer.queue = {}
  enqueued : producer.enqueued = false
  lifecycle : producer.lifecycle = .active

/-- The single-threaded producer a thread works on or asks for. -/
def ThreadPc.single? : ThreadPc → Option Pages
  | .assertOwner _ pages => some pages
  | .claimOwner _ pages => some pages
  | pc =>
    match pc.producer? with
    | some (.single pages) => some pages
    | _ => none

structure Makings (conf : Sealed) (s : State) : Prop where
  plain : ∀ pages, (s.producer (.single pages)).activeWord = none ∧
    (s.producer (.single pages)).lifecycle = .active
  working : ∀ t pages, (s.pc t).single? = some pages → conf.hasSingle pages = true
  visiting : ∀ pages stage, s.consumer.visit? = some (.single pages, stage) →
    conf.hasSingle pages = true
  untouched : ∀ p, ¬ Made conf s p → (s.producer p).Untouched

theorem makings_started (level : ℕ → LogLevel) : Makings conf (State.started conf level) where
  plain _ := ⟨rfl, rfl⟩
  working := nofun
  visiting := nofun
  untouched _ _ := ⟨rfl, rfl, rfl⟩

theorem single?_of_producer? {pc : ThreadPc} {pages : Pages}
    (h : pc.producer? = some (.single pages)) : pc.single? = some pages := by
  cases pc <;> simp_all [ThreadPc.single?, ThreadPc.producer?]

/-- A thread works on producers that were made. -/
theorem made_of_working (hown : Ownership conf s) (h : Makings conf s)
    (hp : (s.pc t).producer? = some p) : Made conf s p := by
  cases p with
  | single pages => exact h.working t pages (single?_of_producer? hp)
  | pooled pages index =>
      exact ((hown.registry pages).holding.held t index ((hown.pc t).holds pages index hp)).1

/-- The consumer visits producers that were made. -/
theorem made_of_visiting (hown : Ownership conf s) (h : Makings conf s) {stage : Stage}
    (hv : s.consumer.visit? = some (p, stage)) : Made conf s p := by
  cases p with
  | single pages => exact h.visiting pages stage hv
  | pooled pages index => exact hown.visitSound hv

/-! ## Steps keep what was made -/

theorem count_setRegistry {pages' : Pages} {value : Registry}
    (h : (s.registry pages').count ≤ value.count) (pages : Pages) :
    (s.registry pages).count ≤ ((s.setRegistry pages' value).registry pages).count := by
  by_cases hp : pages = pages'
  · subst hp
    rw [State.setRegistry_registry_self]
    exact h
  · exact Nat.le_of_eq (congrArg Registry.count (State.setRegistry_registry_of_ne _ hp).symm)

theorem ThreadStep.count_le (hown : Ownership conf s) (hstep : ThreadStep conf s t s')
    (pages : Pages) : (s.registry pages).count ≤ (s'.registry pages).count := by
  cases hstep with
  | recycle => exact count_setRegistry (by dsimp only; exact Nat.le_refl _) pages
  | create =>
      rename_i pages' _ _ _ _
      have hsize := (hown.registry pages').layout.size_eq
      exact count_setRegistry (by dsimp only; omega) pages
  | publishBit | publishRetired =>
      exact Nat.le_of_eq (extent_eq (Prod.mk.inj (publishReadyBit_shape s _ pages)).1).2.2.symm
  | wake => rename_i waker _; cases waker <;> exact Nat.le_refl _
  | _ => exact Nat.le_refl _

theorem ConsumerStep.count_le (hstep : ConsumerStep conf s s') (pages : Pages) :
    (s.registry pages).count ≤ (s'.registry pages).count := by
  cases hstep with
  | takeWord | pushFree => exact count_setRegistry (by dsimp only; exact Nat.le_refl _) pages
  | repost =>
      exact Nat.le_of_eq (extent_eq (Prod.mk.inj (publishReadyBit_shape s _ pages)).1).2.2.symm
  | _ => exact Nat.le_refl _

theorem Made.mono (h : Made conf s p)
    (hcount : ∀ pages, (s.registry pages).count ≤ (s'.registry pages).count) :
    Made conf s' p := by
  cases p with
  | single pages => exact h
  | pooled pages index => exact Nat.lt_of_lt_of_le h (hcount pages)

theorem count_le {a : Action} (hown : Ownership conf s) (hstep : step conf s a = some s')
    (pages : Pages) : (s.registry pages).count ≤ (s'.registry pages).count := by
  rcases step_cases hstep with ⟨t, hthread⟩ | hconsumer
  · exact hthread.count_le hown pages
  · exact hconsumer.count_le pages

theorem made_step {a : Action} (hown : Ownership conf s) (hstep : step conf s a = some s')
    (h : Made conf s p) : Made conf s' p :=
  h.mono (count_le hown hstep)

/-! ## Untouched producers -/

theorem Producer.Untouched.set {value : Producer} {q : ProducerId}
    (h : (s.producer p).Untouched) (hvalue : q = p → value.Untouched) :
    ((s.setProducer q value).producer p).Untouched := by
  by_cases hp : q = p
  · subst hp
    rw [State.setProducer_producer_self]
    exact hvalue rfl
  · rw [State.setProducer_producer_of_ne _ (Ne.symm hp)]
    exact h

/-- A thread changes queue, flag and lifecycle of the producer it works on only. -/
theorem ThreadStep.untouched (hstep : ThreadStep conf s t s') (h : (s.producer p).Untouched)
    (hp : (s.pc t).producer? ≠ some p) : (s'.producer p).Untouched := by
  cases hstep with
  | claimOwner | countDropped =>
      refine h.set ?_
      rintro rfl
      exact ⟨h.queue, h.enqueued, h.lifecycle⟩
  | recycle =>
      refine Producer.Untouched.set (s := s.setRegistry _ _) h ?_
      rintro rfl
      exact ⟨h.queue, rfl, rfl⟩
  | create =>
      refine Producer.Untouched.set (s := s.setRegistry _ _) h ?_
      rintro rfl
      exact ⟨h.queue, h.enqueued, h.lifecycle⟩
  | publish truncated hpc | countEmitted hpc | countTruncated hpc | markWon hpc | retire hpc =>
      refine h.set ?_
      rintro rfl
      exact absurd (by rw [hpc]; rfl) hp
  | publishBit | publishRetired =>
      exact (congrArg (fun f => (f p).Untouched) State.publishReadyBit_producer).mpr h
  | wake => rename_i waker _; cases waker <;> exact h
  | _ => exact h

/-- The consumer changes the producer it visits only. -/
theorem ConsumerStep.untouched (hstep : ConsumerStep conf s s') (h : (s.producer p).Untouched)
    (hp : ∀ stage, s.consumer.visit? ≠ some (p, stage)) : (s'.producer p).Untouched := by
  cases hstep with
  | consume hc | clearEnqueued hc | remarkWon hc | markFree hc | pushFree hc =>
      refine h.set ?_
      rintro rfl
      exact absurd (by rw [hc]; rfl) (hp _)
  | repost => exact (congrArg (fun f => (f p).Untouched) State.publishReadyBit_producer).mpr h
  | _ => exact h

/-! ## The invariant -/

/-- A thread comes to a single-threaded producer through a channel of that mode. -/
theorem Next.single? {pc next : ThreadPc} {pages : Pages} (hnext : Next conf s t pc next)
    (h : next.single? = some pages) : pc.single? = some pages ∨ conf.hasSingle pages = true := by
  cases hnext with
  | move hmove =>
      cases hmove with
      | obtainAssert _ hsingle | obtainSingle _ hsingle =>
          simp only [ThreadPc.single?, ThreadPc.producer?, Option.some.injEq] at h
          exact .inr (h ▸ hsingle)
      | assertFirst | assertOwned | drop => exact .inl h
      | _ => simp [ThreadPc.single?, ThreadPc.producer?] at h
  | claimOwner | publishCounted | publish | countEmitted | countEmittedCut | countTruncated
  | markPooled => exact .inl h
  | _ => simp [ThreadPc.single?, ThreadPc.producer?] at h

/-- A step keeps the role of the single-threaded producers. -/
theorem ThreadStep.role_single (hstep : ThreadStep conf s t s') (pages : Pages) :
    (s'.producer (.single pages)).role = (s.producer (.single pages)).role := by
  cases hstep with
  | claimOwner | countDropped | publish | countEmitted | countTruncated | markWon =>
      exact role_setProducer (by rfl) _
  | recycle | create | retire =>
      simp [State.setProducer_producer_of_ne]
  | publishBit | publishRetired =>
      exact congrArg (fun f => (f (.single pages)).role) State.publishReadyBit_producer
  | wake => rename_i waker _; cases waker <;> rfl
  | _ => rfl

theorem ConsumerStep.role_single (hown : Ownership conf s) (hstep : ConsumerStep conf s s')
    (pages : Pages) : (s'.producer (.single pages)).role = (s.producer (.single pages)).role := by
  cases hstep with
  | consume | clearEnqueued | remarkWon => exact role_setProducer (by rfl) _
  | repost => exact congrArg (fun f => (f (.single pages)).role) State.publishReadyBit_producer
  | markFree hc | pushFree hc =>
      refine congrArg Producer.role (State.setProducer_producer_of_ne _ ?_)
      rintro rfl
      exact hown.leaving _ _ _ _ hc (by simp [Stage.Leaving])
  | _ => rfl

/-- The consumer comes to a single-threaded producer only if there is one. -/
theorem ConsumerStep.single (hstep : ConsumerStep conf s s') {pages : Pages} {stage : Stage}
    (h : s'.consumer.visit? = some (.single pages, stage)) :
    (∃ stage, s.consumer.visit? = some (.single pages, stage)) ∨
      conf.hasSingle pages = true := by
  cases hstep with
  | singleVisit hc hsingle =>
      simp only [ConsumerPc.visit?, Option.some.injEq, Prod.mk.injEq,
        ProducerId.single.injEq] at h
      exact .inr (h.1 ▸ hsingle)
  | readTail hc | consume hc | consumed hc | firstEmpty hc | firstFilled hc | clearEnqueued hc
  | secondFilled hc | remarkWon hc | isRetired hc | markFree hc =>
      simp_all [ConsumerPc.visit?]
  | secondEmpty hc =>
      rename_i p _
      cases p <;> simp_all [ConsumerPc.visit?, afterDrained]
  | passDone hc =>
      rename_i round
      cases round with
      | final allDrained => cases allDrained <;> simp [Round.finish, ConsumerPc.visit?] at h
      | _ => simp [Round.finish, ConsumerPc.visit?] at h
  | _ => simp [ConsumerPc.visit?] at h

theorem role_single {pages : Pages}
    (h : (s'.producer (.single pages)).role = (s.producer (.single pages)).role)
    (hs : (s.producer (.single pages)).activeWord = none ∧
      (s.producer (.single pages)).lifecycle = .active) :
    (s'.producer (.single pages)).activeWord = none ∧
      (s'.producer (.single pages)).lifecycle = .active := by
  obtain ⟨hbinding, -, hlife⟩ := role_eq h
  exact ⟨(congrArg Prod.fst hbinding).trans hs.1, hlife.trans hs.2⟩

theorem makings_step {a : Action} (hown : Ownership conf s) (h : Makings conf s)
    (hstep : step conf s a = some s') : Makings conf s' := by
  have hmade : ∀ p, ¬ Made conf s' p → ¬ Made conf s p :=
    fun p hnot hp => hnot (made_step hown hstep hp)
  rcases step_cases hstep with ⟨t, hthread⟩ | hconsumer
  · refine
      { plain := fun pages => role_single (hthread.role_single pages) (h.plain pages)
        working := fun other pages hp => ?_
        visiting := fun pages stage hv => h.visiting pages stage (hthread.consumer_eq ▸ hv)
        untouched := fun p hp => hthread.untouched (h.untouched p (hmade p hp)) ?_ }
    · by_cases heq : other = t
      · subst heq
        rcases hthread.next.single? hp with hp | hp
        · exact h.working _ pages hp
        · exact hp
      · exact h.working other pages (hthread.pc_of_ne heq ▸ hp)
    · exact fun hwork => hmade p hp (made_of_working hown h hwork)
  · refine
      { plain := fun pages => role_single (hconsumer.role_single hown pages) (h.plain pages)
        working := fun other pages hp => h.working other pages (hconsumer.pc_eq ▸ hp)
        visiting := fun pages stage hv => ?_
        untouched := fun p hp => hconsumer.untouched (h.untouched p (hmade p hp)) ?_ }
    · rcases hconsumer.single hv with ⟨stage', hv⟩ | hp
      · exact h.visiting pages stage' hv
      · exact hp
    · exact fun stage hv => hmade p hp (made_of_visiting hown h hv)

theorem makings_of_reachable (h : (handoff conf).Reachable s) : Makings conf s := by
  refine h.invariant ?_ fun s a s' hs hm hstep => makings_step (ownership_of_reachable hs) hm hstep
  rintro _ ⟨level, rfl⟩
  exact makings_started level

end Unlog.Handoff
