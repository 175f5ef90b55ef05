import Unlog.Handoff.Drained
import Unlog.Handoff.Flush
import Unlog.Handoff.Shutdown

/-! # Retired producers come back

A retired producer is pushed on the free list by the first visit that finds it retired all along,
and a flush visits every producer. -/

namespace Unlog.Handoff

open Library

variable {conf : Sealed} {s s' : State} {t : ℕ} {p : ProducerId}

/-- Retired, and not yet back on the free list. -/
def Pending (s : State) (p : ProducerId) : Prop :=
  (s.producer p).lifecycle = .retired ∨ s.consumer.visit? = some (p, .pushFree)

instance (s : State) (p : ProducerId) : Decidable (Pending s p) :=
  inferInstanceAs (Decidable (_ ∨ _))

/-- The producer a step retires. -/
def retires (s : State) : Action → Option ProducerId
  | .thread t =>
    match s.pc t with
    | .retire pages index =>
      if (s.producer (.pooled pages index)).lifecycle = .active then some (.pooled pages index)
      else none
    | _ => none
  | _ => none

/-- The producer a step pushes on the free list. -/
def pushes (s : State) : Action → Option ProducerId
  | .consumer =>
    match s.consumer with
    | .visit _ _ p .pushFree => some p
    | _ => none
  | _ => none

theorem pushes_consumer : pushes s .consumer = some p ↔
    s.consumer.visit? = some (p, .pushFree) := by
  cases hc : s.consumer with
  | visit round resume q stage => cases stage <;> simp [pushes, hc, ConsumerPc.visit?]
  | _ => simp [pushes, hc, ConsumerPc.visit?]

/-! ## Threads -/

/-- A thread leaves a retired producer alone. -/
theorem ThreadStep.lodging_retired (hown : Ownership conf s) (hmakings : Makings conf s)
    (hstep : ThreadStep conf s t s') (h : (s.producer p).lifecycle = .retired) :
    (s'.producer p).lodging = (s.producer p).lodging := by
  cases hstep.lodging hown with
  | keep hkeep => exact hkeep p
  | @publish q hpc _ hother =>
      rw [hother p ?_]
      rintro rfl
      rw [active_of_working hown hmakings hpc] at h
      contradiction
  | @recycle q hfree _ hother =>
      rw [hother p ?_]
      rintro rfl
      rw [hfree] at h
      contradiction
  | @retire pages index hpc hactive _ hother =>
      rw [hother p ?_]
      rintro rfl
      rw [hactive] at h
      contradiction

theorem Pending.thread (h : Pending s p) (hown : Ownership conf s) (hmakings : Makings conf s)
    (hstep : ThreadStep conf s t s') : Pending s' p := by
  rcases h with hretired | hpush
  · have hsame := (lodging_eq (hstep.lodging_retired hown hmakings hretired)).1
    exact .inl (hsame.trans hretired)
  · exact .inr (hstep.consumer_eq ▸ hpush)

/-- A producer becomes pending when its thread retires it. -/
theorem ThreadStep.pending_of (hown : Ownership conf s)
    (hstep : ThreadStep conf s t s') (h : Pending s' p) :
    Pending s p ∨ ∃ pages index, p = .pooled pages index ∧ s.pc t = .retire pages index ∧
      (s.producer p).lifecycle = .active := by
  rcases h with hretired | hpush
  · cases hstep.lodging hown with
    | keep hkeep => exact .inl (.inl ((lodging_eq (hkeep p)).1.symm.trans hretired))
    | @publish q hpc hself hother =>
        by_cases hp : p = q
        · subst hp
          exact .inl (.inl (hself.symm.trans hretired))
        · exact .inl (.inl (hother p hp ▸ hretired))
    | @recycle q hfree hself hother =>
        by_cases hp : p = q
        · subst hp
          rw [hself] at hretired
          contradiction
        · exact .inl (.inl (hother p hp ▸ hretired))
    | @retire pages index hpc hactive hself hother =>
        by_cases hp : p = .pooled pages index
        · subst hp
          exact .inr ⟨pages, index, rfl, hpc, hactive⟩
        · exact .inl (.inl (hother p hp ▸ hretired))
  · exact .inl (.inr (hstep.consumer_eq ▸ hpush))

/-! ## The consumer -/

theorem lifecycle_setProducer {q : ProducerId} {value : Producer}
    (h : value.lifecycle = (s.producer q).lifecycle) (p : ProducerId) :
    ((s.setProducer q value).producer p).lifecycle = (s.producer p).lifecycle := by
  apply State.setProducer_part Producer.lifecycle
  rintro rfl
  exact h

/-- The consumer marks a retired producer free and pushes it next. -/
theorem ConsumerStep.lifecycle (hstep : ConsumerStep conf s s') (p : ProducerId) :
    (s'.producer p).lifecycle = (s.producer p).lifecycle ∨
      s.consumer.visit? = some (p, .markFree) ∧ (s.producer p).lifecycle = .retired ∧
        (s'.producer p).lifecycle = .free ∧ s'.consumer.visit? = some (p, .pushFree) := by
  cases hstep with
  | @markFree round resume q hc hretired =>
      by_cases hp : p = q
      · subst hp
        refine .inr ⟨by rw [hc]; rfl, hretired, ?_, rfl⟩
        exact congrArg Producer.lifecycle (State.setProducer_producer_self _)
      · exact .inl (congrArg Producer.lifecycle (State.setProducer_producer_of_ne _ hp))
  | consume | clearEnqueued | remarkWon => exact .inl (lifecycle_setProducer (by rfl) p)
  | pushFree => exact .inl (lifecycle_setProducer (by rfl) p)
  | repost => exact .inl (congrArg (fun f => (f p).lifecycle) State.publishReadyBit_producer)
  | _ => exact .inl rfl

/-- The consumer comes to a push by marking. -/
theorem ConsumerStep.pushing (hstep : ConsumerStep conf s s')
    (h : s'.consumer.visit? = some (p, .pushFree)) :
    s.consumer.visit? = some (p, .markFree) ∧ (s.producer p).lifecycle = .retired := by
  cases hstep with
  | markFree hc hretired =>
      obtain ⟨rfl, -⟩ := Prod.mk.inj (Option.some.inj h)
      exact ⟨by rw [hc]; rfl, hretired⟩
  | consume hc =>
      change s.consumer.visit? = _ at h
      rw [hc] at h
      simp [ConsumerPc.visit?] at h
  | secondEmpty =>
      rename_i q _ _
      cases q <;> simp [afterDrained, ConsumerPc.visit?] at h
  | passDone =>
      rename_i round _
      cases round with
      | final allDrained => cases allDrained <;> simp [Round.finish, ConsumerPc.visit?] at h
      | _ => simp [Round.finish, ConsumerPc.visit?] at h
  | _ => simp [ConsumerPc.visit?] at h

theorem ConsumerStep.pending (hstep : ConsumerStep conf s s') (p : ProducerId) :
    (Pending s' p → Pending s p) ∧
      (Pending s p → Pending s' p ∨ s.consumer.visit? = some (p, .pushFree)) := by
  refine ⟨?_, ?_⟩
  · rintro (hretired | hpush)
    · rcases hstep.lifecycle p with hsame | ⟨-, hold, -, -⟩
      · exact .inl (hsame.symm.trans hretired)
      · exact .inl hold
    · exact .inl (hstep.pushing hpush).2
  · rintro (hretired | hpush)
    · rcases hstep.lifecycle p with hsame | ⟨-, -, -, hpush⟩
      · exact .inl (.inl (hsame.trans hretired))
      · exact .inl (.inr hpush)
    · exact .inr hpush

/-- The consumer is at a push of a free producer. -/
theorem free_of_pushing (hown : Ownership conf s)
    (h : s.consumer.visit? = some (p, .pushFree)) : (s.producer p).lifecycle = .free := by
  cases p with
  | single pages => exact absurd (.inr (.inr rfl)) (hown.visitSound h)
  | pooled pages index => exact (hown.registry pages).freeing.pushing index (pushing_iff.mpr h)

theorem not_pending_of_active (hown : Ownership conf s)
    (h : (s.producer p).lifecycle = .active) : ¬ Pending s p := by
  rintro (hretired | hpush)
  · rw [h] at hretired
    contradiction
  · rw [free_of_pushing hown hpush] at h
    contradiction

/-- A push ends the retirement. -/
theorem ConsumerStep.not_pending (hown : Ownership conf s) (hstep : ConsumerStep conf s s')
    (h : s.consumer.visit? = some (p, .pushFree)) : ¬ Pending s' p := by
  rintro (hretired | hpush)
  · rcases hstep.lifecycle p with hsame | ⟨hmark, -, -, -⟩
    · rw [hsame, free_of_pushing hown h] at hretired
      contradiction
    · rw [hmark] at h
      simp at h
  · have hmark := (hstep.pushing hpush).1
    rw [hmark] at h
    simp at h

theorem made_of_pending (hown : Ownership conf s) (hmakings : Makings conf s)
    (h : Pending s p) : Made conf s p := by
  by_contra hnot
  exact not_pending_of_active hown (hmakings.untouched p hnot).lifecycle h

/-! ## One push for each retirement -/

theorem retires_thread : retires s (.thread t) = some p ↔ ∃ pages index,
    p = .pooled pages index ∧ s.pc t = .retire pages index ∧
      (s.producer p).lifecycle = .active := by
  cases hpc : s.pc t with
  | retire pages index =>
      simp only [retires, hpc]
      constructor
      · intro h
        split at h
        · obtain rfl := Option.some.inj h
          exact ⟨pages, index, rfl, rfl, by assumption⟩
        · contradiction
      · rintro ⟨pages', index', rfl, heq, hactive⟩
        obtain ⟨rfl, rfl⟩ := ThreadPc.retire.inj heq
        exact if_pos hactive
  | _ => simp [retires, hpc]

/-- Whether a producer is pending, as a number. -/
def State.pending (s : State) (p : ProducerId) : ℕ := if Pending s p then 1 else 0

theorem pending_congr (h : Pending s' p ↔ Pending s p) : s'.pending p = s.pending p :=
  if_congr h rfl rfl

theorem countP_toList {o : Option ProducerId} :
    o.toList.countP (· == p) = if o = some p then 1 else 0 := by
  cases o with
  | none => simp
  | some q => simp [List.countP_cons]

/-- A retirement makes a producer pending, a push ends that. -/
theorem pending_step {a : Action} (h : (handoff conf).Reachable s)
    (hstep : step conf s a = some s') (p : ProducerId) :
    s'.pending p + (pushes s a).toList.countP (· == p) =
      s.pending p + (retires s a).toList.countP (· == p) := by
  have hown := ownership_of_reachable h
  have hmakings := makings_of_reachable h
  rw [countP_toList, countP_toList]
  -- a thread that retires nothing
  have hkeep : ∀ t, ThreadStep conf s t s' → pushes s a = none → retires s a = none →
      (∀ pages index, s.pc t ≠ .retire pages index ∨
        (s.producer (.pooled pages index)).lifecycle ≠ .active) →
      s'.pending p + (if pushes s a = some p then 1 else 0) =
        s.pending p + (if retires s a = some p then 1 else 0) := by
    intro t hthread hpush hretire hnot
    rw [hpush, hretire]
    refine congrArg (· + 0)
      (pending_congr ⟨fun hp => ?_, fun hp => hp.thread hown hmakings hthread⟩)
    refine (hthread.pending_of hown hp).resolve_right ?_
    rintro ⟨pages, index, rfl, hpc, hactive⟩
    rcases hnot pages index with hne | hne
    · exact hne hpc
    · exact hne hactive
  cases a with
  | call t call =>
      simp only [step] at hstep
      split at hstep
      case isFalse => contradiction
      case isTrue hidle =>
        obtain rfl := Option.some.inj hstep
        exact hkeep t (.call call hidle) rfl rfl fun _ _ => .inl (by simp [hidle])
  | produce t outcome =>
      simp only [step] at hstep
      split at hstep
      case h_2 => contradiction
      case h_1 channel q hpc =>
        obtain rfl := Option.some.inj hstep
        exact hkeep t (produceStep_cases hpc outcome) rfl rfl fun _ _ => .inl (by simp [hpc])
  | thread t =>
      have hthread := threadStep_cases hstep
      cases hretire : retires s (.thread t) with
      | none =>
          have hsame := hkeep t hthread rfl hretire fun pages index => ?_
          · rwa [hretire] at hsame
          · by_contra hboth
            rw [not_or, not_not, not_not] at hboth
            have hsome := retires_thread.mpr ⟨pages, index, rfl, hboth⟩
            rw [hretire] at hsome
            contradiction
      | some q =>
          obtain ⟨pages, index, rfl, hpc, hactive⟩ := retires_thread.mp hretire
          change _ + 0 = _
          rw [Nat.add_zero]
          by_cases hp : p = .pooled pages index
          · subst hp
            have hretired : (s'.producer (.pooled pages index)).lifecycle = .retired := by
              simp only [step, threadStep, hpc, hactive, if_true, Option.some.injEq] at hstep
              subst hstep
              exact congrArg Producer.lifecycle (State.setProducer_producer_self _)
            rw [if_pos rfl, State.pending, State.pending, if_pos (.inl hretired),
              if_neg (not_pending_of_active hown hactive)]
          · rw [if_neg (by simpa using Ne.symm hp), Nat.add_zero]
            refine pending_congr ⟨fun hpending => ?_, fun hpending =>
              hpending.thread hown hmakings hthread⟩
            refine (hthread.pending_of hown hpending).resolve_right ?_
            rintro ⟨pages', index', rfl, hpc', -⟩
            obtain ⟨rfl, rfl⟩ := ThreadPc.retire.inj (hpc.symm.trans hpc')
            exact hp rfl
  | consumer =>
      have hconsumer := consumerStep_cases hstep
      obtain ⟨hback, hforth⟩ := hconsumer.pending p
      change _ = _ + 0
      rw [Nat.add_zero]
      by_cases hpush : s.consumer.visit? = some (p, .pushFree)
      · rw [if_pos (pushes_consumer.mpr hpush), State.pending, State.pending,
          if_neg (hconsumer.not_pending hown hpush), if_pos (.inr hpush)]
      · rw [if_neg (fun h => hpush (pushes_consumer.mp h)), Nat.add_zero]
        exact pending_congr ⟨hback, fun hp => (hforth hp).resolve_right hpush⟩

/-! ## A visit of a retired producer -/

/-- From here a visit of a retired producer ends with its push: nobody publishes any more. -/
def Stage.Clears (queue : Queue) : Stage → Prop
  | .readTail | .isRetired | .markFree | .pushFree => True
  | .consume tail => queue.tail ≤ tail
  | .firstEmpty | .clearEnqueued | .secondEmpty => queue.empty = true
  | .publishReady | .remark | .publishRemark => False

/-- The visit goes on to the push. -/
def Clearing (s : State) (p : ProducerId) : Prop :=
  ∃ stage, s.consumer.visit? = some (p, stage) ∧ stage.Clears (s.producer p).queue

/-- The pass will push the producer, if it is pending. -/
def Caught (s : State) (p : ProducerId) : Prop :=
  s.consumer.Ahead p ∨
    ∃ stage, s.consumer.visit? = some (p, stage) ∧ stage.Clears (s.producer p).queue

theorem Clearing.thread (h : Clearing s p) (hpending : Pending s p) (hown : Ownership conf s)
    (hmakings : Makings conf s) (hstep : ThreadStep conf s t s') : Clearing s' p := by
  obtain ⟨stage, hvisit, hclears⟩ := h
  refine ⟨stage, hstep.consumer_eq ▸ hvisit, ?_⟩
  rcases hpending with hretired | hpush
  · rwa [(lodging_eq (hstep.lodging_retired hown hmakings hretired)).2]
  · rw [hpush] at hvisit
    obtain ⟨-, rfl⟩ := Prod.mk.inj (Option.some.inj hvisit)
    trivial

theorem Caught.thread (h : Caught s p) (hpending : Pending s p) (hown : Ownership conf s)
    (hmakings : Makings conf s) (hstep : ThreadStep conf s t s') : Caught s' p := by
  refine h.imp (fun hahead => ?_) fun hclearing => ?_
  · rwa [hstep.consumer_eq]
  · exact Clearing.thread hclearing hpending hown hmakings hstep

theorem clearing_of_visit (stage : Stage) (h : s.consumer.visit? = some (p, stage))
    (hclears : stage.Clears (s.producer p).queue) : Clearing s p := ⟨stage, h, hclears⟩

/-- A visit that clears goes on to the push. -/
theorem ConsumerStep.clears (h : (handoff conf).Reachable s) (hstep : ConsumerStep conf s s')
    (hpending : Pending s p) {stage : Stage} (hvisit : s.consumer.visit? = some (p, stage))
    (hclears : stage.Clears (s.producer p).queue) : stage = .pushFree ∨ Clearing s' p := by
  have hown := ownership_of_reachable h
  -- the stages of this visit, named
  have hstage : ∀ {round : Round} {resume : Cursor} {q : ProducerId} {stage' : Stage},
      s.consumer = .visit round resume q stage' → q = p ∧ stage' = stage := by
    intro round resume q stage' hc
    rw [hc] at hvisit
    exact Prod.mk.inj (Option.some.inj hvisit)
  have hretired : stage ≠ .pushFree → (s.producer p).lifecycle = .retired := by
    intro hne
    refine hpending.resolve_right fun hpush => hne ?_
    rw [hvisit] at hpush
    exact (Prod.mk.inj (Option.some.inj hpush)).2
  cases hstep with
  | readTail hc =>
      obtain ⟨rfl, rfl⟩ := hstage hc
      exact .inr (clearing_of_visit (.consume _) rfl (Nat.le_refl _))
  | consume hc =>
      obtain ⟨rfl, rfl⟩ := hstage hc
      refine .inr (clearing_of_visit _ hvisit ?_)
      change Queue.tail (Producer.queue ((s.setProducer _ _).producer _)) ≤ _
      rw [State.setProducer_producer_self]
      exact hclears
  | consumed hc hle =>
      obtain ⟨rfl, rfl⟩ := hstage hc
      have hempty := Nat.le_antisymm (head_le_tail h _) (Nat.le_trans hclears hle)
      exact .inr (clearing_of_visit .firstEmpty rfl (by
        simpa [Stage.Clears, Queue.empty] using hempty))
  | firstEmpty hc hempty =>
      obtain ⟨rfl, rfl⟩ := hstage hc
      exact .inr (clearing_of_visit .clearEnqueued rfl hempty)
  | firstFilled hc hempty | secondFilled hc hempty =>
      obtain ⟨rfl, rfl⟩ := hstage hc
      rw [Stage.Clears, hempty] at hclears
      contradiction
  | repost hc hcase =>
      obtain ⟨rfl, rfl⟩ := hstage hc
      rcases hcase with rfl | rfl <;> exact hclears.elim
  | clearEnqueued hc =>
      obtain ⟨rfl, rfl⟩ := hstage hc
      refine .inr (clearing_of_visit .secondEmpty rfl ?_)
      change Queue.empty (Producer.queue ((s.setProducer _ _).producer _)) = true
      rw [State.setProducer_producer_self]
      exact hclears
  | secondEmpty hc hempty =>
      rename_i round resume q
      obtain ⟨rfl, rfl⟩ := hstage hc
      cases q with
      | single pages =>
          have hactive := ((makings_of_reachable h).plain pages).2
          rw [hretired (by simp)] at hactive
          contradiction
      | pooled pages index => exact .inr (clearing_of_visit .isRetired rfl trivial)
  | remarkWon hc | remarkLost hc =>
      obtain ⟨rfl, rfl⟩ := hstage hc
      exact hclears.elim
  | isRetired hc =>
      obtain ⟨rfl, rfl⟩ := hstage hc
      exact .inr (clearing_of_visit .markFree rfl trivial)
  | notRetired hc hcase hnot =>
      obtain ⟨rfl, rfl⟩ := hstage hc
      refine absurd (hretired ?_) hnot
      rcases hcase with rfl | rfl <;> simp
  | markFree hc =>
      obtain ⟨rfl, rfl⟩ := hstage hc
      exact .inr (clearing_of_visit .pushFree rfl trivial)
  | pushFree hc =>
      obtain ⟨rfl, rfl⟩ := hstage hc
      exact .inl rfl
  | sampleTicket hc | startFlush hc | noFlush hc | flushSinks hc | completeFlush hc | stop hc
  | sleep hc | again hc | awake hc | finalFlush hc | singleVisit hc | singleSkip hc | countFlush hc
  | countWords hc | takeWord hc | wordsDone hc | bitsDone hc | bitVisit hc | slotVisit hc
  | slotsDone hc | passDone hc =>
      rw [hc] at hvisit
      simp [ConsumerPc.visit?] at hvisit

/-- A flush pass that has the producer in front of it comes to it. -/
theorem Caught.consumer (h : (handoff conf).Reachable s) (hcaught : Caught s p)
    (hpending : Pending s p) (hstep : ConsumerStep conf s s') {requested : ℕ}
    (hflush : s.consumer.walking? = some requested) :
    s.consumer.visit? = some (p, .pushFree) ∨ Caught s' p := by
  have hown := ownership_of_reachable h
  have hmakings := makings_of_reachable h
  have hpass := passSound_of_reachable h
  rcases hcaught with hahead | ⟨stage, hvisit, hclears⟩
  · rcases hstep.ahead hown hpass (made_of_pending hown hmakings hpending) hahead with
      hahead' | ⟨hvisit, -⟩ | ⟨round, pages, words, i, -, -, hc⟩
    · exact .inr (.inl hahead')
    · exact .inr (.inr (clearing_of_visit _ hvisit trivial))
    · -- a flush follows no ready bits
      have hsuits := hpass.suits
      rw [hc] at hsuits hflush
      cases round with
      | flush requested' => exact absurd rfl (hsuits requested')
      | _ => contradiction
  · rcases hstep.clears h hpending hvisit hclears with rfl | hclearing
    · exact .inl hvisit
    · exact .inr (.inr hclearing)

/-! ## A flush waits for the push -/

/-- No round that answers the request has gone past the pending producer. -/
structure Waits (s : State) (target : ℕ) (p : ProducerId) : Prop where
  pending : s.flushCompleted < target
  walking : ∀ requested, s.consumer.walking? = some requested → target ≤ requested → Caught s p
  passed : ∀ requested, s.consumer = .flushSinks requested ∨ s.consumer = .completeFlush requested →
    requested < target

theorem Waits.thread {target : ℕ} (h : Waits s target p) (hpending : Pending s p)
    (hown : Ownership conf s) (hmakings : Makings conf s) (hstep : ThreadStep conf s t s') :
    Waits s' target p where
  pending := by
    rw [hstep.served_eq.2]
    exact h.pending
  walking requested hw hle :=
    (h.walking requested (hstep.consumer_eq ▸ hw) hle).thread hpending hown hmakings hstep
  passed requested hc := h.passed requested (hstep.consumer_eq ▸ hc)

/-- No round has begun that answers a request still to be made. -/
theorem waits_of_lt {target : ℕ} (hsound : FlushSound conf s) (hlt : s.flushRequested < target) :
    Waits s target p := by
  have hround : ∀ requested, s.consumer.requested? = some requested → requested < target :=
    fun requested hr => Nat.lt_of_le_of_lt (hsound.round requested hr).2 hlt
  refine ⟨Nat.lt_of_le_of_lt hsound.bounded hlt, fun requested hw hle => ?_,
    fun requested hc => hround requested ?_⟩
  · exact absurd hle (Nat.not_le_of_lt (hround requested (requested?_of_walking? hw)))
  · rcases hc with hc | hc <;> rw [hc] <;> rfl

theorem caught_first {round : Round} (h : s.consumer = .pass round Cursor.first) : Caught s p := by
  refine .inl ?_
  rw [h]
  exact ahead_first p

theorem not_caught_done {round : Round} (h : s.consumer = .pass round .done) : ¬ Caught s p := by
  rintro (hahead | ⟨stage, hvisit, -⟩)
  · rw [h] at hahead
    exact not_ahead_done p hahead
  · rw [h] at hvisit
    contradiction

theorem Waits.consumer {target : ℕ} (hs : (handoff conf).Reachable s) (h : Waits s target p)
    (hpending : Pending s p) (hstep : ConsumerStep conf s s') :
    s.consumer.visit? = some (p, .pushFree) ∨ Waits s' target p := by
  rcases hstep.serving with ⟨-, hc', hcompleted⟩ | ⟨hidle, hidle', hwalking, hcompleted⟩ |
    ⟨answered, hc, hc', hcompleted⟩ | ⟨answered, hc, hc', -, hcompleted⟩ |
    ⟨answered, hc, hc', hcompleted⟩
  · refine .inr ⟨hcompleted ▸ h.pending, fun _ _ _ => caught_first hc', fun requested hc => ?_⟩
    rw [hc'] at hc
    rcases hc with hc | hc <;> contradiction
  · by_cases hpush : s.consumer.visit? = some (p, .pushFree)
    · exact .inl hpush
    · refine .inr ⟨hcompleted ▸ h.pending, fun requested hw hle => ?_, fun requested hc => ?_⟩
      · rw [hwalking] at hw
        exact ((h.walking requested hw hle).consumer hs hpending hstep hw).resolve_left hpush
      · rcases hc with hc | hc <;> (rw [hc] at hidle'; contradiction)
  · refine .inr ⟨hcompleted ▸ h.pending, fun requested hw _ => ?_, fun requested hc'' => ?_⟩
    · rw [hc'] at hw
      contradiction
    · rw [hc'] at hc''
      rcases hc'' with hc'' | hc''
      · obtain rfl := ConsumerPc.flushSinks.inj hc''
        by_contra hle
        exact not_caught_done hc (h.walking answered (by rw [hc]; rfl) (Nat.le_of_not_lt hle))
      · contradiction
  · refine .inr ⟨hcompleted ▸ h.pending, fun requested hw _ => ?_, fun requested hc'' => ?_⟩
    · rw [hc'] at hw
      contradiction
    · rw [hc'] at hc''
      rcases hc'' with hc'' | hc''
      · contradiction
      · obtain rfl := ConsumerPc.completeFlush.inj hc''
        exact h.passed answered (.inl hc)
  · refine .inr ⟨hcompleted ▸ h.passed answered (.inr hc), fun requested hw _ => ?_,
      fun requested hc'' => ?_⟩
    · rw [hc'] at hw
      contradiction
    · rw [hc'] at hc''
      rcases hc'' with hc'' | hc'' <;> contradiction

/-! ## The flushing thread -/

theorem ThreadStep.present (hstep : ThreadStep conf s t s') :
    s'.present = s.present ∨ ∃ final, s.pc t = .finishDestroy final ∧ s'.lifecycle = final := by
  cases hstep with
  | finishDestroy _ hpc => exact .inr ⟨_, hpc, rfl⟩
  | publishBit | publishRetired =>
      obtain ⟨registry, hr⟩ := State.publishReadyBit_eq s _
      rw [hr]
      exact .inl rfl
  | wake => rename_i waker _; cases waker <;> exact .inl rfl
  | _ => exact .inl rfl

/-- A running runtime was running before. -/
theorem running_step {a : Action} (h : (handoff conf).Reachable s)
    (hstep : step conf s a = some s') (hrunning : s'.lifecycle = .running) :
    s.lifecycle = .running := by
  by_contra hne
  rcases step_cases hstep with ⟨t, hthread⟩ | hconsumer
  · exact (destroySound_of_reachable h).ended hthread hne hrunning
  · exact hne (hconsumer.control_eq.1.symm.trans hrunning)

theorem present_of_running (h : (handoff conf).Reachable s) :
    s.lifecycle = .running → s.present = true := by
  refine h.invariant (I := fun s => s.lifecycle = .running → s.present = true) ?_ ?_
  · rintro _ ⟨level, rfl⟩ -
    rfl
  · intro s a s' hs hpresent hstep hrunning
    have hold := hpresent (running_step hs hstep hrunning)
    rcases step_cases hstep with ⟨t, hthread⟩ | hconsumer
    · rcases hthread.present with hsame | ⟨final, hpc, hfinal⟩
      · exact hsame.trans hold
      · have hne := (destroySound_of_reachable hs).final t final (by rw [hpc]; rfl)
        exact absurd (hfinal.symm.trans hrunning) hne
    · cases hconsumer with
      | repost =>
          obtain ⟨registry, hr⟩ := State.publishReadyBit_eq s _
          rw [hr]
          exact hold
      | _ => exact hold

/-- A flush of a running runtime goes on until its request is complete. -/
theorem flush_goes_on (hpresent : s.present = true) (hrunning : s.lifecycle = .running)
    {before : List RecordId} (hb : (s.pc t).before? = some before)
    (hstep : threadStep conf s t = some s') :
    (s'.pc t).before? = some before ∨ ∃ target before, s.pc t = .flushLeave target before := by
  cases hpc : s.pc t with
  | flushLeave target before => exact .inr ⟨target, before, rfl⟩
  | flushWait target before' =>
      simp only [threadStep, hpc] at hstep
      split at hstep
      · contradiction
      · obtain rfl := Option.some.inj hstep
        rw [hpc] at hb
        rw [State.setPc_pc_self]
        exact .inl hb
  | wake waker =>
      cases waker with
      | flush target before' =>
          simp only [threadStep, hpc, Option.some.injEq] at hstep
          subst hstep
          rw [hpc] at hb
          simp only [wakeStep, State.setPc_pc_self]
          exact .inl hb
      | _ => rw [hpc] at hb; contradiction
  | flushState before' | flushAdmit before' | flushLifecycle before' | flushRequest before' =>
      simp only [threadStep, hpc, hpresent, hrunning, if_true, Option.some.injEq] at hstep
      subst hstep
      rw [hpc] at hb
      rw [State.setPc_pc_self]
      exact .inl hb
  | _ => rw [hpc] at hb; contradiction

theorem calling_step {a : Action} (hpresent : s.present = true) (hrunning : s.lifecycle = .running)
    (hstep : step conf s a = some s') (hcalling : (s.pc t).before? ≠ none)
    (hstays : ∀ target before, s.pc t ≠ .flushLeave target before) :
    (s'.pc t).before? ≠ none := by
  obtain ⟨before, hb⟩ := Option.ne_none_iff_exists'.mp hcalling
  by_cases ht : a.thread? = some t
  · cases a with
    | call other call =>
        obtain rfl := Option.some.inj ht
        simp only [step] at hstep
        split at hstep
        case isTrue hidle =>
          rw [hidle] at hb
          contradiction
        case isFalse => contradiction
    | produce other outcome =>
        obtain rfl := Option.some.inj ht
        simp only [step] at hstep
        split at hstep
        case h_1 channel q hpc =>
          rw [hpc] at hb
          contradiction
        case h_2 => contradiction
    | thread other =>
        obtain rfl := Option.some.inj ht
        rcases flush_goes_on hpresent hrunning hb hstep with hb' | ⟨target, before', hpc⟩
        · rw [hb']
          simp
        · exact absurd hpc (hstays target before')
    | consumer => contradiction
  · rwa [step_pc_of_ne hstep ht]

/-- A thread is in a flush that waits for the push of a pending producer. -/
structure Awaits (s : State) (t : ℕ) (p : ProducerId) : Prop where
  pending : Pending s p
  calling : (s.pc t).before? ≠ none
  waits : ∀ target before, (s.pc t).target? = some (target, before) → Waits s target p

/-- Such a flush cannot leave. -/
theorem Awaits.stays (hs : (handoff conf).Reachable s) (h : Awaits s t p) (target : ℕ)
    (before : List RecordId) : s.pc t ≠ .flushLeave target before := by
  intro hpc
  have hle := (flushSound_of_reachable hs).leaving t target before hpc
  have hlt := (h.waits target before (by rw [hpc]; rfl)).pending
  omega

theorem Awaits.step {a : Action} (hs : (handoff conf).Reachable s)
    (hrunning : s.lifecycle = .running) (h : Awaits s t p)
    (hstep : Handoff.step conf s a = some s') : pushes s a = some p ∨ Awaits s' t p := by
  have hown := ownership_of_reachable hs
  have hmakings := makings_of_reachable hs
  have hcalling := calling_step (present_of_running hs hrunning) hrunning hstep h.calling
    (h.stays hs)
  rcases step_cases_consumer hstep with ⟨other, hthread⟩ | ⟨rfl, hconsumer⟩
  · refine .inr ⟨h.pending.thread hown hmakings hthread, hcalling, fun target before htarget => ?_⟩
    by_cases hother : t = other
    · subst hother
      rcases hthread.next.target? htarget with hold | ⟨-, rfl⟩
      · exact (h.waits target before hold).thread h.pending hown hmakings hthread
      · have hfresh : Waits s (s.flushRequested + 1) p :=
          waits_of_lt (flushSound_of_reachable hs) (Nat.lt_succ_self _)
        exact hfresh.thread h.pending hown hmakings hthread
    · rw [hthread.pc_of_ne hother] at htarget
      exact (h.waits target before htarget).thread h.pending hown hmakings hthread
  · by_cases hpush : s.consumer.visit? = some (p, .pushFree)
    · exact .inl (pushes_consumer.mpr hpush)
    · refine .inr ⟨((hconsumer.pending p).2 h.pending).resolve_right hpush, hcalling,
        fun target before htarget => ?_⟩
      rw [hconsumer.pc_eq] at htarget
      exact ((h.waits target before htarget).consumer hs h.pending hconsumer).resolve_left hpush

theorem running_run {actions : List Action} (hs : (handoff conf).Reachable s)
    (hrun : (handoff conf).run s actions = some s') (hrunning : s'.lifecycle = .running) :
    s.lifecycle = .running := by
  induction actions generalizing s with
  | nil =>
      obtain rfl : s = s' := by simpa [System.run] using hrun
      exact hrunning
  | cons a actions ih =>
      obtain ⟨next, hnext, hrest⟩ := Option.bind_eq_some_iff.mp hrun
      exact running_step hs hnext (ih (hs.step hnext) hrest)

/-- While the runtime runs, a run pushes the producer or the flush goes on waiting. -/
theorem Awaits.run {actions : List Action} (hs : (handoff conf).Reachable s) (h : Awaits s t p)
    (hrun : (handoff conf).run s actions = some s') (hrunning : s'.lifecycle = .running) :
    p ∈ (handoff conf).observe pushes s actions ∨ Awaits s' t p := by
  induction actions generalizing s with
  | nil =>
      obtain rfl : s = s' := by simpa [System.run] using hrun
      exact .inr h
  | cons a actions ih =>
      have hnow := running_run hs hrun hrunning
      obtain ⟨next, hnext, hrest⟩ := Option.bind_eq_some_iff.mp hrun
      simp only [System.observe, hnext, List.mem_append]
      rcases h.step hs hnow hnext with hpush | hnext'
      · exact .inl (.inl (by simp [hpush]))
      · exact (ih (hs.step hnext) hnext' hrest).imp_left .inr

theorem awaits_of_call (hpending : Pending s p)
    (hcall : (handoff conf).step s (.call t .flush) = some s') : Awaits s' t p := by
  simp only [handoff, step] at hcall
  split at hcall
  case isFalse => contradiction
  case isTrue hidle =>
    obtain rfl := Option.some.inj hcall
    have hpc : (s.setPc t (.flushState s.returned)).pc t = .flushState s.returned :=
      State.setPc_pc_self _
    refine ⟨hpending, ?_, fun target before htarget => ?_⟩
    · simp [Call.entry, ThreadPc.before?]
    · rw [Call.entry, hpc] at htarget
      contradiction

/-- A flush of a running runtime returns after the push of every producer that was pending when
it was called. -/
theorem flush_pushes {actions : List Action} (hs : (handoff conf).Reachable s)
    (hpending : Pending s p) (hrun : (handoff conf).run s (.call t .flush :: actions) = some s')
    (hrunning : s'.lifecycle = .running) {s'' : State}
    (hreturn : step conf s' (.thread t) = some s'') (hidle : s''.pc t = .idle) :
    p ∈ (handoff conf).observe pushes s (.call t .flush :: actions) := by
  have hreach := hs.run hrun
  obtain ⟨called, hcall, hrest⟩ := Option.bind_eq_some_iff.mp hrun
  have hcalled : Awaits called t p := awaits_of_call hpending hcall
  simp only [System.observe, hcall, List.mem_append]
  refine .inr ((hcalled.run (hs.step hcall) hrest hrunning).resolve_right fun hawaits => ?_)
  have hcalling := calling_step (present_of_running hreach hrunning) hrunning hreturn
    hawaits.calling (hawaits.stays hreach)
  rw [hidle] at hcalling
  exact hcalling rfl

end Unlog.Handoff
