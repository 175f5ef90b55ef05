import Unlog.Handoff.Blocked
import Unlog.Handoff.Stats

/-! # The account of the log calls

Every call that got its producer and did not throw is counted once, as emitted or as dropped, and
every emitted record was consumed or is still queued. -/

namespace Unlog.Handoff

variable {conf : Sealed} {s s' s₀ : State} {t : ℕ} {p : ProducerId} {c : Counter}

/-- The record the consumer takes with a step. -/
def consumes (s : State) : Action → Option Record
  | .consumer =>
    match s.consumer with
    | .visit _ _ p (.consume tail) =>
      if (s.producer p).queue.head < tail then
        (s.producer p).queue.published[(s.producer p).queue.head]?
      else none
    | _ => none
  | _ => none

/-- What became of a log call that got its producer, once `produce` returns; none if it throws. -/
def logged (conf : Sealed) (s : State) : Action → Option Outcome
  | .produce t outcome =>
    match s.pc t with
    | .produce _ p =>
      if conf.capacity p.pages ≤ (s.producer p).queue.tail - (s.producer p).queue.head then
        some .dropped
      else if outcome = .error then none
      else some outcome
    | _ => none
  | _ => none

/-- The records of a kind that are published and not yet consumed. -/
def State.queued (s : State) (conf : Sealed) (q : Record → Bool) : ℕ :=
  ∑ p ∈ s.made conf, ((s.producer p).queue.published.drop (s.producer p).queue.head).countP q

/-- No log call is between `produce` and its counters. -/
def State.Counted (s : State) : Prop := ∀ t c, (s.pc t).due c = none

/-! ## Producers that were not made -/

theorem counter_unmade (h : (handoff conf).Reachable s) (c : Counter) (p : ProducerId)
    (hp : ¬ Made conf s p) : (s.producer p).counter c = 0 := by
  refine h.invariant (I := fun s => ¬ Made conf s p → (s.producer p).counter c = 0) ?_ ?_ hp
  · rintro _ ⟨level, rfl⟩ -
    cases c <;> rfl
  · intro s a s' hs hzero hstep hp'
    have hown := ownership_of_reachable hs
    have hp : ¬ Made conf s p := fun hmade => hp' (made_step hown hstep hmade)
    rcases step_cases hstep with ⟨t, hthread⟩ | hconsumer
    · rw [hthread.counter, hzero hp, owed_of_ne]
      intro hpays
      exact hp (made_of_working hown (makings_of_reachable hs) (producer?_of_pays hpays))
    · rw [hconsumer.counter, hzero hp]

theorem balance_unmade (h : (handoff conf).Reachable s) (c : Counter) (p : ProducerId)
    (hp : ¬ Made conf s p) : s.balance c p = 0 := by
  have hdue : s.due c p = 0 := due_eq_zero fun t hdue =>
    hp (made_of_working (ownership_of_reachable h) (makings_of_reachable h)
      (producer?_of_due hdue))
  rw [State.balance, counter_unmade h c p hp, hdue]

/-! ## Sums over the producers -/

/-- A sum that a step changes at one producer. -/
theorem sum_made {a : Action} {f f' : ProducerId → ℕ} {q : ProducerId} {n : ℕ}
    (hown : Ownership conf s) (hstep : step conf s a = some s')
    (hzero : ∀ p, ¬ Made conf s p → f p = 0) (hq : n ≠ 0 → Made conf s q)
    (h : ∀ p, f' p = f p + if p = q then n else 0) :
    ∑ p ∈ s'.made conf, f' p = ∑ p ∈ s.made conf, f p + n := by
  have hsum : ∑ p ∈ s.made conf, f p = ∑ p ∈ s'.made conf, f p :=
    Finset.sum_subset (made_subset hown hstep) fun p _ hp => hzero p fun hmade =>
      hp (mem_made.mpr hmade)
  have hone : (∑ p ∈ s'.made conf, if p = q then n else 0) = n := by
    rw [Finset.sum_ite_eq']
    by_cases hn : n = 0
    · simp [hn]
    · exact if_pos (made_subset hown hstep (mem_made.mpr (hq hn)))
  rw [Finset.sum_congr rfl fun p _ => h p, Finset.sum_add_distrib, hone, hsum]

/-! ## What is consumed -/

/-- The records of a kind taken off a queue. -/
def Queue.taken (queue : Queue) (q : Record → Bool) : ℕ :=
  (queue.published.take queue.head).countP q

def State.taken (s : State) (conf : Sealed) (q : Record → Bool) : ℕ :=
  ∑ p ∈ s.made conf, (s.producer p).queue.taken q

theorem consumes_of_ne {a : Action} (h : a ≠ .consumer) : consumes s a = none := by
  cases a with
  | consumer => exact absurd rfl h
  | _ => rfl

theorem consumes_eq (s : State) : consumes s .consumer =
    (takesOff s .consumer).bind fun r => (s.producer r.producer).queue.published[r.number]? := by
  unfold consumes takesOff
  cases s.consumer with
  | visit round resume p stage =>
      cases stage with
      | consume tail =>
          dsimp only
          split <;> rfl
      | _ => rfl
  | _ => rfl

theorem taken_unmade (hmakings : Makings conf s) (q : Record → Bool) (p : ProducerId)
    (hp : ¬ Made conf s p) : (s.producer p).queue.taken q = 0 := by
  rw [(hmakings.untouched p hp).queue]
  rfl

/-- A thread takes nothing off a queue. -/
theorem ThreadStep.taken (h : (handoff conf).Reachable s) (hstep : ThreadStep conf s t s')
    (q : Record → Bool) (p : ProducerId) :
    (s'.producer p).queue.taken q = (s.producer p).queue.taken q := by
  rcases hstep.queue p with hqueue | ⟨channel, truncated, -, -, hqueue⟩
  · rw [hqueue]
  · rw [hqueue, Queue.taken, Queue.taken, List.take_append_of_le_length (head_le_tail h p)]

theorem taken_step {a : Action} (h : (handoff conf).Reachable s)
    (hstep : step conf s a = some s') (q : Record → Bool) :
    s'.taken conf q = s.taken conf q + (consumes s a).toList.countP q := by
  have hown := ownership_of_reachable h
  have hmakings := makings_of_reachable h
  have hkeep : consumes s a = none →
      (∀ p, (s'.producer p).queue.taken q = (s.producer p).queue.taken q) →
      s'.taken conf q = s.taken conf q + (consumes s a).toList.countP q := by
    intro hnone hsame
    rw [hnone]
    exact sum_made (q := .single .normal) hown hstep (taken_unmade hmakings q) (by simp)
      fun p => by simp [hsame p]
  rcases step_cases_consumer hstep with ⟨t, hthread⟩ | ⟨rfl, hconsumer⟩
  · by_cases ha : a = .consumer
    · subst ha
      rcases (consumerStep_cases hstep).takesOff with
        ⟨p, record, stage, -, -, -, hqueue, -⟩ | ⟨hnone, hsame⟩
      · have htaken := hthread.head_eq p
        rw [hqueue] at htaken
        simp at htaken
      · exact hkeep (by rw [consumes_eq, hnone]; rfl) fun p => by rw [hsame p]
    · exact hkeep (consumes_of_ne ha) (hthread.taken h q)
  · rcases hconsumer.takesOff with
      ⟨p, record, stage, hvisit, hsome, hrecord, hqueue, hother⟩ | ⟨hnone, hsame⟩
    · rw [consumes_eq, hsome, Option.bind_some, hrecord]
      refine sum_made hown hstep (taken_unmade hmakings q) (q := p)
        (fun _ => made_of_visiting hown hmakings hvisit) fun p' => ?_
      by_cases hp : p' = p
      · subst hp
        rw [hqueue, if_pos rfl, Queue.taken, Queue.taken, List.take_add_one, hrecord,
          List.countP_append]
      · rw [hother p' hp, if_neg hp]
        rfl
    · exact hkeep (by rw [consumes_eq, hnone]; rfl) fun p => by rw [hsame p]

/-! ## What is logged -/

/-- A call that got its producer comes to owe one of its counters, unless it throws. -/
theorem due_produce (hdiag : conf.diagnostic = true) {channel : ℕ} {q : ProducerId}
    (hpc : s.pc t = .produce channel q) (outcome : Outcome) (p : ProducerId) :
    owed (((produceStep conf s t channel q outcome).pc t).due .emitted) p +
      owed (((produceStep conf s t channel q outcome).pc t).due .dropped) p =
        if p = q then (logged conf s (.produce t outcome)).toList.length else 0 := by
  have howed : owed (some q) p = if p = q then 1 else 0 := by
    by_cases hp : p = q
    · subst hp
      simp [owed]
    · simp [owed, hp, Ne.symm hp]
  unfold produceStep
  simp only [logged, hpc]
  split
  · simpa [afterDrop, hdiag, ThreadPc.due] using howed
  · cases outcome with
    | error => simp [ThreadPc.due]
    | _ => simpa [afterDrop, afterPublish, hdiag, ThreadPc.due] using howed

/-- What the counters show of log calls once all is paid. -/
noncomputable def State.calls (s : State) (conf : Sealed) : ℕ :=
  ∑ p ∈ s.made conf, (s.balance .emitted p + s.balance .dropped p)

theorem calls_step {a : Action} (hdiag : conf.diagnostic = true) (h : (handoff conf).Reachable s)
    (hstep : step conf s a = some s') :
    s'.calls conf = s.calls conf + (logged conf s a).toList.length := by
  have hown := ownership_of_reachable h
  have hzero : ∀ p, ¬ Made conf s p → s.balance .emitted p + s.balance .dropped p = 0 := by
    intro p hp
    rw [balance_unmade h _ p hp, balance_unmade h _ p hp]
  have hkeep : logged conf s a = none → (∀ c p, s'.balance c p = s.balance c p) →
      s'.calls conf = s.calls conf + (logged conf s a).toList.length := by
    intro hnone hsame
    rw [hnone]
    exact sum_made (q := .single .normal) hown hstep hzero (by simp) fun p => by simp [hsame]
  have hthread : ∀ t, ThreadStep conf s t s' → (s.pc t).producing = false →
      ∀ c p, s'.balance c p = s.balance c p := by
    intro t hthread hnot c p
    rw [hthread.balance hown hdiag, hnot]
    rfl
  cases a with
  | consumer => exact hkeep rfl (consumerStep_cases hstep).balance
  | call t call =>
      simp only [step] at hstep
      split at hstep
      case isFalse => contradiction
      case isTrue hidle =>
        obtain rfl := Option.some.inj hstep
        exact hkeep rfl (hthread t (.call call hidle) (by rw [hidle]; rfl))
  | thread t =>
      refine hkeep rfl (hthread t (threadStep_cases hstep) ?_)
      cases hpc : s.pc t with
      | produce channel q =>
          simp only [step, threadStep, hpc] at hstep
          contradiction
      | _ => rfl
  | produce t outcome =>
      simp only [step] at hstep
      split at hstep
      case h_2 => contradiction
      case h_1 channel q hpc =>
        obtain rfl := Option.some.inj hstep
        have hproduce : ThreadStep conf s t (produceStep conf s t channel q outcome) :=
          produceStep_cases hpc outcome
        refine sum_made (q := q) hown (a := .produce t outcome) (by simp only [step, hpc]) hzero
          (fun _ => made_of_working (t := t) hown (makings_of_reachable h) (by rw [hpc]; rfl))
          fun p => ?_
        have hemitted := hproduce.balance hown hdiag .emitted p
        have hdropped := hproduce.balance hown hdiag .dropped p
        have hdue := due_produce hdiag hpc outcome p
        simp only [hpc, ThreadPc.producing, if_true] at hemitted hdropped
        omega

/-! ## The contract -/

/-- The books of a run from `s₀` to `s`. -/
structure Accounting (conf : Sealed) (s₀ : State) (actions : List Action) (s : State) : Prop where
  emitted : s.total conf .emitted =
    ((handoff conf).observe consumes s₀ actions).length + s.queued conf fun _ => true
  truncated : s.total conf .truncated =
    ((handoff conf).observe consumes s₀ actions).countP Record.truncated +
      s.queued conf Record.truncated
  calls : s.total conf .emitted + s.total conf .dropped =
    ((handoff conf).observe (logged conf) s₀ actions).length

/-- Of two calls of `stats`, one after the other, the second returns no less. -/
def StatsGrow (conf : Sealed) (s : State) : Prop :=
  ∀ (first second : StatsCall) (s₁ s₂ s₃ : State) (actions : List Action),
    (statsCall conf s).Reachable (s₁, first) → first.returned →
    (handoff conf).run s₁ actions = some s₂ →
    (statsCall conf s₂).Reachable (s₃, second) → second.returned →
    ∀ c, first.result.get c ≤ second.result.get c

theorem balance_of_counted (h : s.Counted) (c : Counter) (p : ProducerId) :
    s.balance c p = (s.producer p).counter c := by
  have hdue : s.due c p = 0 := due_eq_zero fun t hdue => by
    rw [h t c] at hdue
    contradiction
  rw [State.balance, hdue, Nat.add_zero]

theorem statsGrow_of_reachable (h : (handoff conf).Reachable s) : StatsGrow conf s := by
  intro first second s₁ s₂ s₃ actions hfirst hreturned hrun hsecond hreturned' c
  have hreach : (handoff conf).Reachable s₁ := reachable_of_statsCall h hfirst
  calc first.result.get c
      ≤ s₁.total conf c := (stats_bounds h hfirst hreturned c).2
    _ ≤ s₂.total conf c := total_le_of_run hreach hrun c
    _ ≤ second.result.get c := (stats_bounds (hreach.run hrun) hsecond hreturned' c).1

/-- What was published on the queues is consumed or queued. -/
theorem published_eq {level : ℕ → LogLevel} {actions : List Action}
    (hrun : (handoff conf).run (.started conf level) actions = some s) (q : Record → Bool) :
    ∑ p ∈ s.made conf, (s.producer p).queue.published.countP q =
      ((handoff conf).observe consumes (.started conf level) actions).countP q +
        s.queued conf q := by
  have hinitial : (handoff conf).Reachable (.started conf level) := .initial ⟨level, rfl⟩
  have htaken : s.taken conf q = (State.started conf level).taken conf q +
      ((handoff conf).observe consumes (.started conf level) actions).countP q :=
    hinitial.observe (fun _ _ _ hs hstep => taken_step hs hstep q) hrun
  have hnone : (State.started conf level).taken conf q = 0 :=
    Finset.sum_eq_zero fun p _ => rfl
  rw [hnone, Nat.zero_add] at htaken
  rw [← htaken, State.taken, State.queued, ← Finset.sum_add_distrib]
  refine Finset.sum_congr rfl fun p _ => ?_
  rw [Queue.taken, ← List.countP_append, List.take_append_drop]

theorem calls_eq (hdiag : conf.diagnostic = true) {level : ℕ → LogLevel} {actions : List Action}
    (hrun : (handoff conf).run (.started conf level) actions = some s) :
    s.calls conf =
      ((handoff conf).observe (logged conf) (.started conf level) actions).length := by
  have hinitial : (handoff conf).Reachable (.started conf level) := .initial ⟨level, rfl⟩
  have hcalls : s.calls conf = (State.started conf level).calls conf +
      ((handoff conf).observe (logged conf) (.started conf level) actions).countP fun _ => true :=
    hinitial.observe (fun _ _ _ hs hstep => by
      rw [List.countP_true]
      exact calls_step hdiag hs hstep) hrun
  have hnone : (State.started conf level).calls conf = 0 := by
    refine Finset.sum_eq_zero fun p _ => ?_
    have hcounted : (State.started conf level).Counted := fun t c => by cases c <;> rfl
    rw [balance_of_counted hcounted, balance_of_counted hcounted]
    rfl
  rw [hcalls, hnone, Nat.zero_add, List.countP_true]

/-- The counters account for every record and every call of a run, whenever no call has still
to count, and what `stats` returns never decreases. -/
theorem accounting_of_run (hdiag : conf.diagnostic = true) {level : ℕ → LogLevel}
    {actions : List Action}
    (hrun : (handoff conf).run (.started conf level) actions = some s) :
    (s.Counted → Accounting conf (.started conf level) actions s) ∧ StatsGrow conf s := by
  have hreach : (handoff conf).Reachable s := .run (.initial ⟨level, rfl⟩) hrun
  refine ⟨fun hcounted => ?_, statsGrow_of_reachable hreach⟩
  have hbalanced := balanced_of_reachable hdiag hreach
  refine ⟨?_, ?_, ?_⟩
  · have hpublished := published_eq hrun fun _ => true
    simp only [List.countP_true] at hpublished
    rw [← hpublished]
    refine Finset.sum_congr rfl fun p _ => ?_
    rw [← balance_of_counted hcounted, (hbalanced p).emitted]
  · rw [← published_eq hrun]
    refine Finset.sum_congr rfl fun p _ => ?_
    rw [← balance_of_counted hcounted, (hbalanced p).truncated]
  · rw [← calls_eq hdiag hrun, State.calls, State.total, State.total, ← Finset.sum_add_distrib]
    refine Finset.sum_congr rfl fun p _ => ?_
    rw [balance_of_counted hcounted, balance_of_counted hcounted]

/-- A thread logs and exits, and the consumer sleeps again. -/
theorem accounting_after_exit :
    ∃ s, (handoff demo).run (.started demo fun _ => .info) demoExit = some s ∧
      Accounting demo (.started demo fun _ => .info) demoExit s ∧ StatsGrow demo s := by
  have hrun : ((handoff demo).run (.started demo fun _ => .info) demoExit).map
      (fun s => s.pc 0) = some .idle := by
    decide +kernel
  obtain ⟨s, hs, hidle⟩ := Option.map_eq_some_iff.mp hrun
  obtain ⟨hcounted, hgrow⟩ := accounting_of_run rfl hs
  refine ⟨s, hs, hcounted fun t c => ?_, hgrow⟩
  by_cases ht : t = 0
  · rw [ht, hidle]
    cases c <;> rfl
  · rw [run_pc_of_ne hs (by simp [demoExit, demoLogged, Action.thread?, Ne.symm ht])]
    cases c <;> rfl

end Unlog.Handoff
