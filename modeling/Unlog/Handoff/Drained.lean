import Unlog.Handoff.Made

/-! # Free producers

The consumer looks at the queue before it looks at the lifecycle, and the owner may publish and
retire in between. -/

namespace Unlog.Handoff

variable {conf : Sealed} {s s' : State} {t : ℕ} {p : ProducerId}

/-- What a thread that takes the producer over finds. -/
def Producer.lodging (producer : Producer) := (producer.lifecycle, producer.queue)

theorem lodging_eq {producer producer' : Producer} (h : producer'.lodging = producer.lodging) :
    producer'.lifecycle = producer.lifecycle ∧ producer'.queue = producer.queue := by
  simpa [Producer.lodging] using h

theorem lodging_setProducer {q : ProducerId} {value : Producer}
    (h : value.lodging = (s.producer q).lodging) (p : ProducerId) :
    ((s.setProducer q value).producer p).lodging = (s.producer p).lodging := by
  apply State.setProducer_part Producer.lodging
  rintro rfl
  exact h

/-- What a thread does to the lodgings. -/
inductive LodgingEffect (s : State) (t : ℕ) (s' : State) : Prop
  | keep (h : ∀ p, (s'.producer p).lodging = (s.producer p).lodging)
  | publish {p : ProducerId} (hpc : (s.pc t).producer? = some p)
      (hself : (s'.producer p).lifecycle = (s.producer p).lifecycle)
      (hother : ∀ q, q ≠ p → s'.producer q = s.producer q)
  | recycle {p : ProducerId} (hfree : (s.producer p).lifecycle = .free)
      (hself : (s'.producer p).lifecycle = .active)
      (hother : ∀ q, q ≠ p → s'.producer q = s.producer q)
  | retire {pages : Pages} {index : ℕ} (hpc : s.pc t = .retire pages index)
      (hactive : (s.producer (.pooled pages index)).lifecycle = .active)
      (hself : (s'.producer (.pooled pages index)).lodging =
        (.retired, (s.producer (.pooled pages index)).queue))
      (hother : ∀ q, q ≠ .pooled pages index → s'.producer q = s.producer q)

theorem ThreadStep.lodging (hown : Ownership conf s) (hstep : ThreadStep conf s t s') :
    LodgingEffect s t s' := by
  cases hstep with
  | @recycle pages purpose index hpc hhead hslot =>
      refine .recycle (p := .pooled pages index) ((hown.registry pages).head_free hhead hslot) ?_
        fun q hq => ?_
      · exact congrArg Producer.lifecycle (State.setProducer_producer_self _)
      · exact State.setProducer_producer_of_ne _ hq
  | create => exact .keep (lodging_setProducer (s := s.setRegistry _ _) rfl)
  | @publish channel p truncated hpc =>
      refine .publish (p := p) (by rw [hpc]; rfl) ?_ fun q hq => ?_
      · change ((s.setProducer p _).producer p).lifecycle = _
        rw [State.setProducer_producer_self]
      · exact State.setProducer_producer_of_ne _ hq
  | @retire pages index hpc hactive =>
      refine .retire hpc hactive ?_ fun q hq => ?_
      · exact congrArg Producer.lodging (State.setProducer_producer_self _)
      · exact State.setProducer_producer_of_ne _ hq
  | claimOwner | countDropped | countEmitted | countTruncated | markWon =>
      exact .keep (lodging_setProducer rfl)
  | publishBit | publishRetired =>
      exact .keep fun p => congrArg (fun f => (f p).lodging) State.publishReadyBit_producer
  | wake => rename_i waker _; cases waker <;> exact .keep fun _ => rfl
  | _ => exact .keep fun _ => rfl

/-! ## The invariant -/

/-- Whatever is about to be freed, or is free, is drained. -/
structure FreedSound (s : State) : Prop where
  leaving : ∀ p, s.consumer.visit? = some (p, .isRetired) →
    (s.producer p).lifecycle = .retired → (s.producer p).queue.empty = true
  marking : ∀ p, s.consumer.visit? = some (p, .markFree) →
    (s.producer p).lifecycle = .retired ∧ (s.producer p).queue.empty = true
  free : ∀ p, (s.producer p).lifecycle = .free → (s.producer p).queue.empty = true

/-- The producer a thread is about to retire. -/
def ThreadPc.retires? : ThreadPc → Option ProducerId
  | .retire pages index => some (.pooled pages index)
  | _ => none

/-- A thread that retires its producer between the consumer's second look at the queue and its
look at the lifecycle has published nothing since that second look. -/
def RetiresDrained (s : State) : Action → Prop
  | .thread t => ∀ p ∈ (s.pc t).retires?, s.consumer.visit? = some (p, .isRetired) →
    (s.producer p).queue.empty = true
  | _ => True

theorem retires?_eq {pc : ThreadPc} (h : p ∈ pc.retires?) :
    ∃ pages index, pc = .retire pages index ∧ p = .pooled pages index := by
  cases pc with
  | retire pages index => exact ⟨pages, index, rfl, (Option.some.inj h).symm⟩
  | _ => contradiction

instance (s : State) : DecidablePred (RetiresDrained s)
  | .thread t => inferInstanceAs (Decidable (∀ p ∈ (s.pc t).retires?,
      s.consumer.visit? = some (p, .isRetired) → (s.producer p).queue.empty = true))
  | .call _ _ => inferInstanceAs (Decidable True)
  | .produce _ _ => inferInstanceAs (Decidable True)
  | .consumer => inferInstanceAs (Decidable True)

/-- Whoever works on a producer finds it active. -/
theorem active_of_working (hown : Ownership conf s) (hmakings : Makings conf s)
    (hp : (s.pc t).producer? = some p) : (s.producer p).lifecycle = .active := by
  cases p with
  | single pages => exact (hmakings.plain pages).2
  | pooled pages index =>
      exact ((hown.registry pages).holding.held t index ((hown.pc t).holds pages index hp)).2

theorem FreedSound.thread (h : FreedSound s) (hown : Ownership conf s) (hmakings : Makings conf s)
    (hretires : ∀ p ∈ (s.pc t).retires?, s.consumer.visit? = some (p, .isRetired) →
      (s.producer p).queue.empty = true)
    (hstep : ThreadStep conf s t s') : FreedSound s' := by
  have hvisit : s'.consumer.visit? = s.consumer.visit? := by rw [hstep.consumer_eq]
  -- a producer that is active before and after is of no concern
  have hactive : ∀ p, (s.producer p).lifecycle ≠ .retired → (s'.producer p).lifecycle = .active →
      (∀ q, q ≠ p → s'.producer q = s.producer q) → FreedSound s' := by
    intro p hold hnew hother
    have hsame : ∀ q, (s'.producer q).lifecycle ≠ .active → s'.producer q = s.producer q := by
      intro q hq
      refine hother q ?_
      rintro rfl
      exact hq hnew
    refine ⟨fun q hq hretired => ?_, fun q hq => ?_, fun q hfree => ?_⟩
    · have hq' := hsame q (by rw [hretired]; simp)
      rw [hq'] at hretired ⊢
      exact h.leaving q (hvisit ▸ hq) hretired
    · have hmarking := h.marking q (hvisit ▸ hq)
      rw [hother q ?_]
      · exact hmarking
      · rintro rfl
        exact hold hmarking.1
    · have hq' := hsame q (by rw [hfree]; simp)
      rw [hq'] at hfree ⊢
      exact h.free q hfree
  cases hstep.lodging hown with
  | keep hkeep =>
      refine ⟨fun q hq hretired => ?_, fun q hq => ?_, fun q hfree => ?_⟩
      · obtain ⟨hlifecycle, hqueue⟩ := lodging_eq (hkeep q)
        rw [hqueue]
        exact h.leaving q (hvisit ▸ hq) (hlifecycle ▸ hretired)
      · obtain ⟨hlifecycle, hqueue⟩ := lodging_eq (hkeep q)
        rw [hlifecycle, hqueue]
        exact h.marking q (hvisit ▸ hq)
      · obtain ⟨hlifecycle, hqueue⟩ := lodging_eq (hkeep q)
        rw [hqueue]
        exact h.free q (hlifecycle ▸ hfree)
  | @publish p hpc hself hother =>
      have hlife := active_of_working hown hmakings hpc
      exact hactive p (by rw [hlife]; simp) (hself.trans hlife) hother
  | @recycle p hfree hself hother => exact hactive p (by rw [hfree]; simp) hself hother
  | @retire pages index hpc hold hself hother =>
      obtain ⟨hretired, hqueue⟩ := Prod.mk.inj hself
      refine ⟨fun q hq hlife => ?_, fun q hq => ?_, fun q hfree => ?_⟩
      · by_cases hp : q = .pooled pages index
        · subst hp
          rw [hqueue]
          exact hretires _ (by rw [hpc]; rfl) (hvisit ▸ hq)
        · rw [hother q hp] at hlife ⊢
          exact h.leaving q (hvisit ▸ hq) hlife
      · have hmarking := h.marking q (hvisit ▸ hq)
        rw [hother q ?_]
        · exact hmarking
        · rintro rfl
          rw [hold] at hmarking
          simp at hmarking
      · have hne : q ≠ .pooled pages index := by
          rintro rfl
          rw [hretired] at hfree
          contradiction
        rw [hother q hne] at hfree ⊢
        exact h.free q hfree

/-- A consumer step that keeps the lodgings, and does not come to an exit. -/
theorem FreedSound.stroll (h : FreedSound s)
    (hkeep : ∀ p, (s'.producer p).lodging = (s.producer p).lodging)
    (hvisit : ∀ p stage, s'.consumer.visit? = some (p, stage) →
      stage ≠ .isRetired ∧ stage ≠ .markFree) : FreedSound s' := by
  refine ⟨fun p hp => absurd rfl (hvisit p _ hp).1, fun p hp => absurd rfl (hvisit p _ hp).2,
    fun p hfree => ?_⟩
  obtain ⟨hlifecycle, hqueue⟩ := lodging_eq (hkeep p)
  rw [hqueue]
  exact h.free p (hlifecycle ▸ hfree)

theorem visit?_pass {round : Round} {cursor : Cursor} {p : ProducerId} {stage : Stage}
    {q : Prop} (h : (ConsumerPc.pass round cursor).visit? = some (p, stage)) : q := by
  contradiction

theorem FreedSound.consumer (h : FreedSound s) (hstep : ConsumerStep conf s s') :
    FreedSound s' := by
  cases hstep with
  | @consume round resume p tail record hc hlt hrecord =>
      refine ⟨fun q hq => ?_, fun q hq => ?_, fun q hfree => ?_⟩
      · change s.consumer.visit? = _ at hq
        rw [hc] at hq
        simp [ConsumerPc.visit?] at hq
      · change s.consumer.visit? = _ at hq
        rw [hc] at hq
        simp [ConsumerPc.visit?] at hq
      · -- a free queue is empty, so nothing is consumed from it
        have hne : q ≠ p := by
          rintro rfl
          have hold : (s.producer q).lifecycle = .free := by
            have hsame : ((s.setProducer q { s.producer q with queue := { (s.producer q).queue with
                head := (s.producer q).queue.head + 1 } }).producer q).lifecycle =
                  (s.producer q).lifecycle := by
              rw [State.setProducer_producer_self]
            exact hsame.symm.trans hfree
          have hempty := h.free q hold
          have hin := (List.getElem?_eq_some_iff.mp hrecord).1
          simp only [Queue.empty, Queue.tail, beq_iff_eq] at hempty
          omega
        have hsame : (s.setProducer p { s.producer p with queue := { (s.producer p).queue with
            head := (s.producer p).queue.head + 1 } }).producer q = s.producer q :=
          State.setProducer_producer_of_ne _ hne
        change ((s.setProducer p _).producer q).queue.empty = true
        rw [hsame]
        exact h.free q (hsame ▸ hfree)
  | clearEnqueued hc | remarkWon hc =>
      refine h.stroll (lodging_setProducer rfl) fun q stage hq => ?_
      simp only [ConsumerPc.visit?, Option.some.injEq, Prod.mk.injEq] at hq
      obtain ⟨-, rfl⟩ := hq
      simp
  | @secondEmpty round resume p hc hempty =>
      refine ⟨fun q hq hretired => ?_, fun q hq => ?_, h.free⟩
      · cases p with
        | single pages => exact visit?_pass hq
        | pooled pages index =>
            simp only [afterDrained, ConsumerPc.visit?, Option.some.injEq, Prod.mk.injEq] at hq
            obtain ⟨rfl, -⟩ := hq
            exact hempty
      · cases p with
        | single pages => exact visit?_pass hq
        | pooled pages index => simp [afterDrained, ConsumerPc.visit?] at hq
  | @isRetired round resume p hc hretired =>
      have hempty := h.leaving p (by rw [hc]; rfl) hretired
      refine ⟨fun q hq => ?_, fun q hq => ?_, h.free⟩
      · simp [ConsumerPc.visit?] at hq
      · simp only [ConsumerPc.visit?, Option.some.injEq, Prod.mk.injEq] at hq
        obtain ⟨rfl, -⟩ := hq
        exact ⟨hretired, hempty⟩
  | @markFree round resume p hc hretired =>
      have hempty := (h.marking p (by rw [hc]; rfl)).2
      refine ⟨fun q hq => ?_, fun q hq => ?_, fun q hfree => ?_⟩
      · simp [ConsumerPc.visit?] at hq
      · simp [ConsumerPc.visit?] at hq
      · by_cases hq : q = p
        · subst hq
          change ((s.setProducer q _).producer q).queue.empty = true
          rw [State.setProducer_producer_self]
          exact hempty
        · have hsame : (s.setProducer p { s.producer p with lifecycle := .free }).producer q =
              s.producer q := State.setProducer_producer_of_ne _ hq
          change ((s.setProducer p _).producer q).queue.empty = true
          rw [hsame]
          exact h.free q (hsame ▸ hfree)
  | pushFree hc =>
      exact h.stroll (lodging_setProducer rfl) fun q stage hq => visit?_pass hq
  | repost hc =>
      exact h.stroll (fun p => congrArg (fun f => (f p).lodging) State.publishReadyBit_producer)
        fun q stage hq => visit?_pass hq
  | passDone hc =>
      refine h.stroll (fun _ => rfl) fun q stage hq => ?_
      rename_i round
      cases round with
      | final allDrained => cases allDrained <;> simp [Round.finish, ConsumerPc.visit?] at hq
      | _ => simp [Round.finish, ConsumerPc.visit?] at hq
  | singleVisit hc | bitVisit hc | slotVisit hc | readTail hc | consumed hc | firstEmpty hc
  | firstFilled hc | secondFilled hc =>
      refine h.stroll (fun _ => rfl) fun q stage hq => ?_
      simp only [ConsumerPc.visit?, Option.some.injEq, Prod.mk.injEq] at hq
      obtain ⟨-, rfl⟩ := hq
      simp
  | _ =>
      refine h.stroll (fun _ => rfl) fun q stage hq => ?_
      simp [ConsumerPc.visit?] at hq

theorem freedSound_of_retiresDrained (h : (handoff conf).ReachableWhere RetiresDrained s) :
    FreedSound s := by
  refine h.invariant ?_ fun s a s' hreach hs hretires hstep => ?_
  · rintro _ ⟨level, rfl⟩
    exact ⟨fun _ hp => by contradiction, fun _ hp => by contradiction,
      fun _ hp => by contradiction⟩
  · have hown := ownership_of_reachable hreach
    have hmakings := makings_of_reachable hreach
    cases a with
    | thread t => exact hs.thread hown hmakings hretires (threadStep_cases hstep)
    | consumer => exact hs.consumer (consumerStep_cases hstep)
    | call t call =>
        simp only [handoff, step] at hstep
        split at hstep
        case isFalse => contradiction
        case isTrue hidle =>
          obtain rfl := Option.some.inj hstep
          refine hs.thread (t := t) hown hmakings (fun p hp => ?_) (.call call hidle)
          rw [hidle] at hp
          contradiction
    | produce t outcome =>
        simp only [handoff, step] at hstep
        split at hstep
        case h_2 => contradiction
        case h_1 channel p hproduce =>
          obtain rfl := Option.some.inj hstep
          refine hs.thread (t := t) hown hmakings (fun p hp => ?_)
            (produceStep_cases hproduce outcome)
          rw [hproduce] at hp
          contradiction

/-! ## The contract -/

structure DrainedContract (conf : Sealed) (s : State) : Prop where
  /-- Where `try_mark_free` succeeds. -/
  freed : ∀ p, s.consumer.visit? = some (p, .markFree) →
    (s.producer p).lifecycle = .retired → (s.producer p).queue.empty = true
  /-- Where a thread takes a producer from the free list. -/
  handed : ∀ t pages purpose index, s.pc t = .acquire pages purpose →
    (s.registry pages).freeHead ≠ conf.maxProducers →
    (s.registry pages).slots (s.registry pages).freeHead = some index →
    (s.producer (.pooled pages index)).queue.empty = true

theorem drainedContract_of_retiresDrained (h : (handoff conf).ReachableWhere RetiresDrained s) :
    DrainedContract conf s := by
  have hs := freedSound_of_retiresDrained h
  have hown := ownership_of_reachable h.reachable
  exact ⟨fun p hp _ => (hs.marking p hp).2,
    fun _ pages _ _ _ hhead hslot => hs.free _ ((hown.registry pages).head_free hhead hslot)⟩

/-- A producer that is retired with a record in that window is freed with it. -/
theorem not_drainedContract_of_retires {a : Action} (h : (handoff conf).Reachable s)
    (hstep : (handoff conf).step s a = some s') (hnot : ¬ RetiresDrained s a) :
    ∃ s'', (handoff conf).step s' .consumer = some s'' ∧ ¬ DrainedContract conf s'' := by
  cases a with
  | thread t =>
      simp only [RetiresDrained, not_forall] at hnot
      obtain ⟨p, hretires, hvisit, hfilled⟩ := hnot
      obtain ⟨pages, index, hpc, rfl⟩ := retires?_eq hretires
      have hown := ownership_of_reachable h
      have hactive : (s.producer (.pooled pages index)).lifecycle = .active :=
        active_of_working (t := t) hown (makings_of_reachable h) (by rw [hpc]; rfl)
      cases hc : s.consumer with
      | visit round resume p stage =>
          simp only [hc, ConsumerPc.visit?, Option.some.injEq, Prod.mk.injEq] at hvisit
          obtain ⟨rfl, rfl⟩ := hvisit
          have hs' : s' = ((s.setProducer (.pooled pages index)
              { s.producer (.pooled pages index) with lifecycle := .retired }).setTls t pages
                none).setPc t (.publishRetired pages index) := by
            have hthread : threadStep conf s t = some s' := hstep
            rw [threadStep, hpc] at hthread
            simp only [hactive, if_true] at hthread
            exact (Option.some.inj hthread).symm
          have hself : s'.producer (.pooled pages index) =
              { s.producer (.pooled pages index) with lifecycle := .retired } := by
            rw [hs']
            exact State.setProducer_producer_self _
          have hc' : s'.consumer = .visit round resume (.pooled pages index) .isRetired := by
            rw [hs']
            exact hc
          refine ⟨{ s' with consumer := .visit round resume (.pooled pages index) .markFree }, ?_,
            fun hcontract => hfilled ?_⟩
          · change consumerStep conf s' = _
            simp only [consumerStep, hc', visitStep, hself, if_true]
          · have hempty := hcontract.freed (.pooled pages index) rfl (by simp [hself])
            simpa [hself] using hempty
      | _ => simp [hc, ConsumerPc.visit?] at hvisit
  | _ => exact absurd trivial hnot

/-- Producers are freed, and handed out, drained as long as nobody retires one with a record
between the consumer's two looks; whoever does has it freed filled. -/
theorem drained_iff_retiresDrained (h : (handoff conf).Reachable s) :
    ((handoff conf).ReachableWhere RetiresDrained s → DrainedContract conf s) ∧
    ∀ a s', (handoff conf).step s a = some s' → ¬ RetiresDrained s a →
      ∃ s'', (handoff conf).step s' .consumer = some s'' ∧ ¬ DrainedContract conf s'' :=
  ⟨drainedContract_of_retiresDrained, fun _ _ => not_drainedContract_of_retires h⟩

/-- A thread logs, and the consumer comes to the lifecycle of its producer. -/
def demoVisit : List Action :=
  List.flatten
    [[.call 0 (.logUnchecked 0), .thread 0, .thread 0, .produce 0 .written],
      List.replicate 4 (.thread 0), List.replicate 12 .consumer]

/-- The thread exits right then, with its record consumed. -/
theorem drained_at_exit :
    ∃ s, (handoff demo).ReachableWhere RetiresDrained s ∧
      s.consumer.visit? = some (.pooled .normal 0, .markFree) ∧ DrainedContract demo s := by
  have hinitial : (handoff demo).ReachableWhere RetiresDrained (.started demo fun _ => .info) :=
    .initial ⟨_, rfl⟩
  have hrun : ((handoff demo).runWhere RetiresDrained (.started demo fun _ => .info)
      (demoVisit ++ [.call 0 (.release .normal), .thread 0, .consumer])).map
        (fun s => s.consumer.visit?) = some (some (.pooled .normal 0, .markFree)) := by
    decide +kernel
  obtain ⟨s, hs, hvisit⟩ := Option.map_eq_some_iff.mp hrun
  have hwhere := hinitial.runWhere hs
  exact ⟨s, hwhere, hvisit, (drained_iff_retiresDrained hwhere.reachable).1 hwhere⟩

/-- It logs again first. -/
def demoRefilled : List Action :=
  List.flatten
    [demoVisit, [.call 0 (.logUnchecked 0), .thread 0, .produce 0 .written],
      List.replicate 4 (.thread 0), [.call 0 (.release .normal), .thread 0, .consumer]]

/-- Its producer is freed with the record of the second call. -/
theorem not_drained_at_exit :
    ∃ s, (handoff demo).Reachable s ∧
      s.consumer.visit? = some (.pooled .normal 0, .markFree) ∧
      (s.producer (.pooled .normal 0)).lifecycle = .retired ∧
      (s.producer (.pooled .normal 0)).queue.empty = false ∧ ¬ DrainedContract demo s := by
  have hinitial : (handoff demo).Reachable (.started demo fun _ => .info) := .initial ⟨_, rfl⟩
  have hrun : ((handoff demo).run (.started demo fun _ => .info) demoRefilled).map
      (fun s => (s.consumer.visit?, (s.producer (.pooled .normal 0)).lifecycle,
        (s.producer (.pooled .normal 0)).queue.empty)) =
      some (some (.pooled .normal 0, .markFree), .retired, false) := by
    decide +kernel
  obtain ⟨s, hs, hfacts⟩ := Option.map_eq_some_iff.mp hrun
  obtain ⟨hvisit, hretired, hfilled⟩ :
      s.consumer.visit? = some (.pooled .normal 0, .markFree) ∧
      (s.producer (.pooled .normal 0)).lifecycle = .retired ∧
      (s.producer (.pooled .normal 0)).queue.empty = false := by
    simpa only [Prod.mk.injEq] using hfacts
  refine ⟨s, hinitial.run hs, hvisit, hretired, hfilled, fun hcontract => ?_⟩
  have hempty := hcontract.freed _ hvisit hretired
  exact Bool.false_ne_true (hfilled.symm.trans hempty)

end Unlog.Handoff
