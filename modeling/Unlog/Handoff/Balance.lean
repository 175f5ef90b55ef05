import Unlog.Handoff.Output

/-! # What the counters owe

Between a publication, or a drop, and its counter a log call owes that counter one. Nobody else
works on the producer meanwhile. -/

namespace Unlog.Handoff

/-- `emitted_`, `dropped_` and `truncated_`. -/
inductive Counter where
  | emitted | dropped | truncated
  deriving DecidableEq, Repr

variable {conf : Sealed} {s s' : State} {t : ℕ} {p : ProducerId} {c : Counter}

def Producer.counter (producer : Producer) : Counter → ℕ
  | .emitted => producer.emitted
  | .dropped => producer.dropped
  | .truncated => producer.truncated

/-- The producer whose counter a thread has still to raise. -/
def ThreadPc.due : ThreadPc → Counter → Option ProducerId
  | .countDropped p, .dropped => some p
  | .countEmitted record _, .emitted => some record.producer
  | .countEmitted record truncated, .truncated => if truncated then some record.producer else none
  | .countTruncated record, .truncated => some record.producer
  | _, _ => none

/-- The producer whose counter the next access of a thread raises. -/
def ThreadPc.pays : ThreadPc → Counter → Option ProducerId
  | .countDropped p, .dropped => some p
  | .countEmitted record _, .emitted => some record.producer
  | .countTruncated record, .truncated => some record.producer
  | _, _ => none

/-- A thread stands before `queue().produce`. -/
def ThreadPc.producing : ThreadPc → Bool
  | .produce _ _ => true
  | _ => false

/-- One for the producer, none for the others. -/
def owed (due : Option ProducerId) (p : ProducerId) : ℕ := if due = some p then 1 else 0

@[simp] theorem owed_none : owed none p = 0 := rfl

theorem owed_of_ne {due : Option ProducerId} (h : due ≠ some p) : owed due p = 0 := if_neg h

open Classical in
/-- What is owed to a counter of a producer. -/
noncomputable def State.due (s : State) (c : Counter) (p : ProducerId) : ℕ :=
  if ∃ t, (s.pc t).due c = some p then 1 else 0

/-- What a counter shows once all is paid. -/
noncomputable def State.balance (s : State) (c : Counter) (p : ProducerId) : ℕ :=
  (s.producer p).counter c + s.due c p

/-! ## What is due to one producer -/

theorem producer?_of_due {pc : ThreadPc} (h : pc.due c = some p) : pc.producer? = some p := by
  cases pc with
  | countDropped q => cases c <;> simp_all [ThreadPc.due, ThreadPc.producer?]
  | countEmitted record truncated =>
      cases c <;> cases truncated <;> simp_all [ThreadPc.due, ThreadPc.producer?]
  | countTruncated record => cases c <;> simp_all [ThreadPc.due, ThreadPc.producer?]
  | _ => cases c <;> contradiction

theorem producer?_of_pays {pc : ThreadPc} (h : pc.pays c = some p) : pc.producer? = some p := by
  cases pc with
  | countDropped q => cases c <;> simp_all [ThreadPc.pays, ThreadPc.producer?]
  | countEmitted record truncated => cases c <;> simp_all [ThreadPc.pays, ThreadPc.producer?]
  | countTruncated record => cases c <;> simp_all [ThreadPc.pays, ThreadPc.producer?]
  | _ => cases c <;> contradiction

theorem due_eq_zero (h : ∀ t, (s.pc t).due c ≠ some p) : s.due c p = 0 :=
  if_neg fun ⟨t, ht⟩ => h t ht

theorem due_congr (h : ∀ t, (s'.pc t).due c = some p ↔ (s.pc t).due c = some p) :
    s'.due c p = s.due c p := by
  classical exact if_congr (exists_congr h) rfl rfl

/-- Nobody else owes anything to the producer of a thread. -/
theorem due_eq_owed (h : ∀ t', t' ≠ t → (s.pc t').due c ≠ some p) :
    s.due c p = owed ((s.pc t).due c) p := by
  by_cases ht : (s.pc t).due c = some p
  · rw [owed, if_pos ht]
    exact if_pos ⟨t, ht⟩
  · rw [owed, if_neg ht]
    refine due_eq_zero fun t' => ?_
    by_cases hne : t' = t
    · subst hne
      exact ht
    · exact h t' hne

/-! ## What a step does to it -/

/-- A thread that comes to owe something works on that producer. -/
theorem Next.due {pc next : ThreadPc} (hnext : Next conf s t pc next)
    (h : next.due c = some p) : pc.producer? = some p := by
  cases hnext with
  | move hmove => cases hmove <;> cases c <;> simp_all [ThreadPc.due, ThreadPc.producer?]
  | _ => cases c <;> simp_all [ThreadPc.due, ThreadPc.producer?]

/-- Only a producing thread incurs a debt; another one pays what it owes. -/
theorem Next.pays {pc next : ThreadPc} (hnext : Next conf s t pc next) (c : Counter)
    (p : ProducerId) :
    owed (pc.due c) p + (if pc.producing then owed (next.due c) p else 0) =
      owed (pc.pays c) p + owed (next.due c) p := by
  cases hnext with
  | move hmove => cases hmove <;> cases c <;> simp [ThreadPc.due, ThreadPc.pays, ThreadPc.producing]
  | _ => cases c <;> simp [ThreadPc.due, ThreadPc.pays, ThreadPc.producing]

theorem counter_setProducer {q : ProducerId} {value : Producer}
    (h : value.counter = (s.producer q).counter) (p : ProducerId) :
    ((s.setProducer q value).producer p).counter = (s.producer p).counter := by
  apply State.setProducer_part Producer.counter
  rintro rfl
  exact h

/-- A counter goes up by what is paid to it. -/
theorem counter_pay {q : ProducerId} {value : Producer} {due : Option ProducerId}
    (hdue : due = some q ∧ value.counter c = (s.producer q).counter c + 1 ∨
      due = none ∧ value.counter c = (s.producer q).counter c) (p : ProducerId) :
    ((s.setProducer q value).producer p).counter c = (s.producer p).counter c + owed due p := by
  by_cases hp : p = q
  · subst hp
    rw [State.setProducer_producer_self]
    rcases hdue with ⟨rfl, hvalue⟩ | ⟨rfl, hvalue⟩
    · simpa [owed] using hvalue
    · simpa using hvalue
  · rw [State.setProducer_producer_of_ne _ hp, owed_of_ne]
    · rfl
    · rcases hdue with ⟨rfl, -⟩ | ⟨rfl, -⟩
      · simpa using Ne.symm hp
      · simp

theorem Move.pays {pc next : ThreadPc} (hmove : Move conf s t pc next) (c : Counter) :
    pc.pays c = none := by
  cases hmove <;> cases c <;> rfl

/-- A step pays what it pays. -/
theorem ThreadStep.counter (hstep : ThreadStep conf s t s') (c : Counter) (p : ProducerId) :
    (s'.producer p).counter c = (s.producer p).counter c + owed ((s.pc t).pays c) p := by
  have hkeep : (s.pc t).pays c = none → (s'.producer p).counter = (s.producer p).counter →
      (s'.producer p).counter c = (s.producer p).counter c + owed ((s.pc t).pays c) p := by
    intro hpays hsame
    rw [hpays, hsame]
    rfl
  cases hstep with
  | countDropped hpc | countEmitted hpc | countTruncated hpc =>
      rw [hpc]
      refine counter_pay ?_ p
      cases c <;> simp [ThreadPc.pays, Producer.counter]
  | move hmove => exact hkeep (hmove.pays c) rfl
  | claimOwner hpc | markWon hpc | publish _ hpc =>
      refine hkeep (by rw [hpc]; cases c <;> rfl) (counter_setProducer (by rfl) p)
  | recycle hpc | create hpc =>
      refine hkeep (by rw [hpc]; cases c <;> rfl)
        (counter_setProducer (s := s.setRegistry _ _) (by rfl) p)
  | retire hpc =>
      refine hkeep (by rw [hpc]; cases c <;> rfl) (counter_setProducer (by rfl) p)
  | publishBit hpc | publishRetired hpc =>
      refine hkeep (by rw [hpc]; cases c <;> rfl)
        (congrArg (fun f => (f p).counter) State.publishReadyBit_producer)
  | wake hpc =>
      rename_i waker
      refine hkeep (by rw [hpc]; cases c <;> rfl) ?_
      cases waker <;> rfl
  | flushLeft hpc =>
      refine hkeep ?_ rfl
      rcases hpc with hpc | ⟨_, _, hpc⟩ <;> rw [hpc] <;> cases c <;> rfl
  | setLevel _ hpc =>
      refine hkeep ?_ rfl
      rcases hpc with ⟨_, _, hpc⟩ | ⟨_, hpc⟩ <;> rw [hpc] <;> cases c <;> rfl
  | call _ hpc | markLost hpc | retireLost hpc | flushAdmit hpc | flushRequest hpc | destroy hpc
  | requestStop hpc | joined hpc | resetSinks hpc | finishDestroy _ hpc =>
      exact hkeep (by rw [hpc]; cases c <;> rfl) rfl

/-- Debts move with the thread that steps: it works alone on the producers it owes to. -/
theorem ThreadStep.due (hown : Ownership conf s) (hdiag : conf.diagnostic = true)
    (hstep : ThreadStep conf s t s') (c : Counter) (p : ProducerId) :
    s'.due c p + owed ((s.pc t).due c) p = s.due c p + owed ((s'.pc t).due c) p := by
  by_cases hwork : (s.pc t).producer? = some p
  · have halone : ∀ t', t' ≠ t → (s.pc t').due c ≠ some p := fun t' hne hdue =>
      hne (soleProducer hown t' t p (producer?_of_due hdue) hwork fun _ _ => hdiag)
    have halone' : ∀ t', t' ≠ t → (s'.pc t').due c ≠ some p := fun t' hne =>
      (hstep.pc_of_ne hne).symm ▸ halone t' hne
    rw [due_eq_owed halone, due_eq_owed halone']
    exact Nat.add_comm ..
  · have hbefore : (s.pc t).due c ≠ some p := fun hdue => hwork (producer?_of_due hdue)
    have hafter : (s'.pc t).due c ≠ some p := fun hdue => hwork (hstep.next.due hdue)
    rw [owed_of_ne hbefore, owed_of_ne hafter]
    refine congrArg (· + 0) (due_congr fun t' => ?_)
    by_cases hne : t' = t
    · subst hne
      exact iff_of_false hafter hbefore
    · rw [hstep.pc_of_ne hne]

/-- Paying keeps the balance: a producing thread changes it by what it comes to owe. -/
theorem ThreadStep.balance (hown : Ownership conf s) (hdiag : conf.diagnostic = true)
    (hstep : ThreadStep conf s t s') (c : Counter) (p : ProducerId) :
    s'.balance c p = s.balance c p +
      (if (s.pc t).producing then owed ((s'.pc t).due c) p else 0) := by
  have hcounter := hstep.counter c p
  have hdue := hstep.due hown hdiag c p
  have hpays := hstep.next.pays c p
  unfold State.balance
  omega

theorem ConsumerStep.counter (hstep : ConsumerStep conf s s') (p : ProducerId) :
    (s'.producer p).counter = (s.producer p).counter := by
  cases hstep with
  | consume | clearEnqueued | remarkWon | markFree | pushFree =>
      exact counter_setProducer (by rfl) p
  | repost => exact congrArg (fun f => (f p).counter) State.publishReadyBit_producer
  | _ => rfl

theorem ConsumerStep.balance (hstep : ConsumerStep conf s s') (c : Counter) (p : ProducerId) :
    s'.balance c p = s.balance c p := by
  have hdue : s'.due c p = s.due c p := due_congr fun t => by rw [hstep.pc_eq]
  rw [State.balance, State.balance, hstep.counter, hdue]

/-! ## What is published -/

/-- A producing thread publishes, or leaves the shared memory alone. -/
theorem ThreadStep.of_produce {channel : ℕ} {q : ProducerId} (hstep : ThreadStep conf s t s')
    (hpc : s.pc t = .produce channel q) :
    (∃ truncated, s'.pc t = afterPublish conf ⟨q, (s.producer q).queue.tail⟩ truncated ∧
      (s'.producer q).queue = { (s.producer q).queue with
        published := (s.producer q).queue.published ++ [⟨channel, truncated⟩] }) ∨
    s' = s.setPc t (.countDropped q) ∨ s' = s.setPc t .idle := by
  cases hstep with
  | @publish channel' q' truncated hpc' =>
      obtain ⟨rfl, rfl⟩ : channel' = channel ∧ q' = q := by simpa [hpc] using hpc'.symm
      exact .inl ⟨truncated, State.setPc_pc_self _,
        congrArg Producer.queue (State.setProducer_producer_self _)⟩
  | move hmove =>
      rw [hpc] at hmove
      cases hmove with
      | drop => exact .inr (.inl rfl)
      | leave => exact .inr (.inr rfl)
  | _ => simp_all

theorem producing_iff {pc : ThreadPc} :
    pc.producing = true ↔ ∃ channel p, pc = .produce channel p := by
  cases pc <;> simp [ThreadPc.producing]

/-! ## The balance of the books -/

/-- The balance of a producer shows what was published on its queue. -/
structure Balanced (s : State) (p : ProducerId) : Prop where
  emitted : s.balance .emitted p = (s.producer p).queue.published.length
  truncated : s.balance .truncated p = (s.producer p).queue.published.countP Record.truncated

theorem Balanced.thread (h : Balanced s p) (hown : Ownership conf s)
    (hdiag : conf.diagnostic = true) (hstep : ThreadStep conf s t s') : Balanced s' p := by
  have hemitted := hstep.balance hown hdiag .emitted p
  have htruncated := hstep.balance hown hdiag .truncated p
  by_cases hproducing : (s.pc t).producing = true
  · obtain ⟨channel, q, hpc⟩ := producing_iff.mp hproducing
    rw [if_pos hproducing] at hemitted htruncated
    rcases hstep.of_produce hpc with ⟨truncated, hpc', hself⟩ | rfl | rfl
    · simp only [hpc', afterPublish, hdiag, if_true, ThreadPc.due] at hemitted htruncated
      by_cases hp : q = p
      · subst hp
        refine ⟨?_, ?_⟩
        · rw [hemitted, h.emitted, hself]
          simp [owed]
        · rw [htruncated, h.truncated, hself]
          cases truncated <;> simp [owed]
      · have hne : some q ≠ some p := by simpa using hp
        have hsame : (s'.producer p).queue = (s.producer p).queue := by
          refine (hstep.queue p).resolve_right ?_
          rintro ⟨_, _, hpc'', -⟩
          simp [hpc, hp] at hpc''
        refine ⟨?_, ?_⟩
        · rw [hemitted, h.emitted, hsame, owed_of_ne hne]
          rfl
        · rw [htruncated, h.truncated, hsame]
          cases truncated <;> simp [owed, hne]
    · simp only [State.setPc_pc_self, ThreadPc.due, owed_none] at hemitted htruncated
      exact ⟨hemitted.trans h.emitted, htruncated.trans h.truncated⟩
    · simp only [State.setPc_pc_self, ThreadPc.due, owed_none] at hemitted htruncated
      exact ⟨hemitted.trans h.emitted, htruncated.trans h.truncated⟩
  · rw [if_neg hproducing] at hemitted htruncated
    have hsame : (s'.producer p).queue = (s.producer p).queue := by
      refine (hstep.queue p).resolve_right ?_
      rintro ⟨channel, -, hpc, -⟩
      exact hproducing (producing_iff.mpr ⟨channel, p, hpc⟩)
    exact ⟨by rw [hemitted, hsame, h.emitted, Nat.add_zero],
      by rw [htruncated, hsame, h.truncated, Nat.add_zero]⟩

theorem balanced_of_reachable (hdiag : conf.diagnostic = true) (h : (handoff conf).Reachable s)
    (p : ProducerId) : Balanced s p := by
  refine h.invariant (I := fun s => Balanced s p) ?_ fun s a s' hs hbalanced hstep => ?_
  · rintro _ ⟨level, rfl⟩
    have hdue : ∀ c, (State.started conf level).due c p = 0 := fun c =>
      due_eq_zero fun t ht => by cases c <;> contradiction
    constructor <;> rw [State.balance, hdue] <;> rfl
  · rcases step_cases hstep with ⟨t, hthread⟩ | hconsumer
    · exact hbalanced.thread (ownership_of_reachable hs) hdiag hthread
    · refine ⟨?_, ?_⟩
      · rw [hconsumer.balance, hconsumer.published, hbalanced.emitted]
      · rw [hconsumer.balance, hconsumer.published, hbalanced.truncated]

end Unlog.Handoff
