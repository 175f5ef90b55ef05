import Unlog.Handoff.Shutdown

/-! # How long a pass of the last drain is

Threads never hold the consumer up in `drain_until_idle`, and a pass over the ready bits is over
after a number of accesses that only the configuration bounds. -/

namespace Unlog.Handoff

open Library

variable {conf : Sealed} {s s' : State} {pages : Pages}

/-- The consumer is in `drain_until_idle`. -/
def ConsumerPc.idling : ConsumerPc → Bool
  | .pass round _ => round.isFinal
  | .visit round _ _ _ => round.isFinal
  | _ => false

/-! ## Bounds -/

section Bounds

variable (conf : Sealed)

/-- One visit, of a producer whose queue is full when its tail is read. -/
def Sealed.visitSteps (pages : Pages) : ℕ := conf.capacity pages + 8

/-- One word, with every bit set. -/
def Sealed.wordSteps (pages : Pages) : ℕ := 64 * (conf.visitSteps pages + 1) + 2

/-- One registry, with every producer made. -/
def Sealed.registrySteps (pages : Pages) : ℕ :=
  (conf.maxProducers + 63) / 64 * conf.wordSteps pages + 2

/-- One pass of `drain_ready`. -/
def Sealed.passSteps : ℕ :=
  conf.visitSteps .normal + 1 + (conf.visitSteps .huge + 1 +
    (conf.registrySteps .normal + (conf.registrySteps .huge + 1)))

/-- What comes after a registry. -/
def Sealed.restSteps : Pages → ℕ
  | .normal => conf.registrySteps .huge + 1
  | .huge => 1

/-- The accesses a pass over the ready bits has left at most. -/
def Cursor.left : Cursor → ℕ
  | .single .normal => conf.passSteps
  | .single .huge =>
    conf.visitSteps .huge + 1 + (conf.registrySteps .normal + (conf.registrySteps .huge + 1))
  | .count pages => conf.registrySteps pages + conf.restSteps pages
  | .word pages words index => (words - index) * conf.wordSteps pages + 1 + conf.restSteps pages
  | .bits pages words index pending =>
    popcount pending * (conf.visitSteps pages + 1) + 1 +
      ((words - (index + 1)) * conf.wordSteps pages + 1 + conf.restSteps pages)
  | .slot _ _ _ => 0
  | .done => 1

/-- The accesses a visit has left at most. -/
def Stage.left (p : ProducerId) (queue : Queue) : Stage → ℕ
  | .readTail => conf.visitSteps p.pages
  | .consume tail => tail - queue.head + 7
  | .firstEmpty => 6
  | .clearEnqueued => 5
  | .secondEmpty => 4
  | .isRetired => 3
  | .markFree | .remark => 2
  | .pushFree | .publishReady | .publishRemark => 1

/-- The accesses until the pass is over, at most. -/
def State.left (s : State) : ℕ :=
  match s.consumer with
  | .pass _ cursor => cursor.left conf
  | .visit _ resume p stage => stage.left conf p (s.producer p).queue + resume.left conf
  | _ => 0

end Bounds

theorem left_afterRegistry (pages : Pages) :
    (Cursor.afterRegistry pages).left conf = conf.restSteps pages := by
  cases pages <;> rfl

theorem left_single (pages : Pages) : (Cursor.single pages).left conf =
    conf.visitSteps pages + 1 + (Cursor.afterSingle pages).left conf := by
  cases pages <;> rfl

theorem left_words {count : ℕ} (h : count ≤ conf.maxProducers) :
    (Cursor.word pages ((count + 63) / 64) 0).left conf < (Cursor.count pages).left conf := by
  have hwords : (count + 63) / 64 ≤ (conf.maxProducers + 63) / 64 :=
    Nat.div_le_div_right (Nat.add_le_add_right h 63)
  have hsteps := Nat.mul_le_mul_right (conf.wordSteps pages) hwords
  simp only [Cursor.left, Sealed.registrySteps, Nat.sub_zero]
  omega

theorem left_bits {words index : ℕ} {pending : BitVec 64} (h : index < words) :
    (Cursor.bits pages words index pending).left conf <
      (Cursor.word pages words index).left conf := by
  have hbits := Nat.mul_le_mul_right (conf.visitSteps pages + 1) (popcount_le pending)
  have hwords : words - index = words - (index + 1) + 1 := by omega
  simp only [Cursor.left, hwords, Nat.add_mul, Nat.one_mul]
  have hword : conf.wordSteps pages = 64 * (conf.visitSteps pages + 1) + 2 := rfl
  omega

theorem left_nextWord {words index : ℕ} {pending : BitVec 64} :
    (Cursor.word pages words (index + 1)).left conf <
      (Cursor.bits pages words index pending).left conf := by
  simp only [Cursor.left]
  omega

theorem left_dropBit {words index : ℕ} {pending : BitVec 64} (h : pending ≠ 0) :
    conf.visitSteps pages + (Cursor.bits pages words index (pending &&& (pending - 1))).left conf <
      (Cursor.bits pages words index pending).left conf := by
  have hbits := popcount_and_sub_one h
  simp only [Cursor.left, ← hbits, Nat.add_mul, Nat.one_mul]
  omega

/-! ## Steps -/

/-- What a queue holds fits into it. -/
def Fits (conf : Sealed) (s : State) : Prop :=
  ∀ p, (s.producer p).queue.tail - (s.producer p).queue.head ≤ conf.capacity p.pages

/-- The producers of a visit and of the bits taken are made, and what is read of a queue was
published. -/
structure PassReady (s : State) : Prop where
  due : ∀ pages i, s.consumer.due (.pooled pages i) = true → i < (s.registry pages).count
  snapshot : ∀ round resume p tail, s.consumer = .visit round resume p (.consume tail) →
    tail ≤ (s.producer p).queue.tail

/-- Each access of the consumer brings the end of the pass nearer. -/
theorem ConsumerStep.left_lt (hown : Ownership conf s) (hpass : PassSound s) (hfits : Fits conf s)
    (hstep : ConsumerStep conf s s') (hidling : s.consumer.idling = true) :
    s'.left conf < s.left conf ∨
      ∃ round, s.consumer = .pass round .done ∧ s'.consumer = round.finish := by
  cases hstep with
  | passDone hc => exact .inr ⟨_, hc, rfl⟩
  | singleVisit hc =>
      rename_i pages _
      refine .inl ?_
      simp only [State.left, hc, left_single, Stage.left, ProducerId.pages]
      omega
  | singleSkip hc =>
      refine .inl ?_
      simp only [State.left, hc, left_single]
      omega
  | countWords hc =>
      rename_i pages _
      refine .inl ?_
      simp only [State.left, hc]
      exact left_words (hown.registry pages).layout.le_max
  | takeWord hc hlt =>
      refine .inl ?_
      simp only [State.left, hc]
      exact left_bits hlt
  | wordsDone hc =>
      refine .inl ?_
      simp only [State.left, hc, left_afterRegistry]
      simp only [Cursor.left]
      omega
  | bitsDone hc =>
      refine .inl ?_
      simp only [State.left, hc]
      exact left_nextWord
  | bitVisit hc hzero =>
      refine .inl ?_
      simp only [State.left, hc]
      exact left_dropBit hzero
  | readTail hc =>
      rename_i p
      refine .inl ?_
      have hroom := hfits p
      simp only [State.left, hc, Stage.left, Sealed.visitSteps]
      omega
  | consume hc hlt =>
      refine .inl ?_
      simp only [State.left, State.setProducer_consumer, hc, Stage.left,
        State.setProducer_producer_self]
      omega
  | secondEmpty hc =>
      rename_i p _
      refine .inl ?_
      cases p <;> simp only [State.left, hc, afterDrained, Stage.left] <;> omega
  | repost hc hstage =>
      refine .inl ?_
      rcases hstage with rfl | rfl <;> simp only [State.left, hc, Stage.left] <;> omega
  | notRetired hc hstage =>
      refine .inl ?_
      rcases hstage with rfl | rfl <;> simp only [State.left, hc, Stage.left] <;> omega
  | consumed hc | firstEmpty hc | firstFilled hc | clearEnqueued hc | secondFilled hc
  | remarkWon hc | remarkLost hc | isRetired hc | markFree hc | pushFree hc =>
      refine .inl ?_
      simp only [State.left, hc, Stage.left]
      omega
  | countFlush hc =>
      rw [hc] at hidling
      contradiction
  | slotVisit hc | slotsDone hc =>
      have hsuits := hpass.suits
      rw [hc] at hsuits hidling
      obtain ⟨requested, rfl⟩ := hsuits
      contradiction
  | sampleTicket hc | startFlush hc | noFlush hc | flushSinks hc | completeFlush hc | stop hc
  | sleep hc | again hc | awake hc | finalFlush hc =>
      rw [hc] at hidling
      contradiction

/-- A thread makes a pass no longer. -/
theorem ThreadStep.left_eq {t : ℕ} (hstep : ThreadStep conf s t s') :
    s'.left conf = s.left conf := by
  rw [State.left, State.left, hstep.consumer_eq]
  cases s.consumer with
  | visit round resume p stage =>
      cases stage <;> simp only [Stage.left, hstep.head_eq]
  | _ => rfl

theorem passStep_isSome {round : Round} {cursor : Cursor} (hown : Ownership conf s)
    (hsuits : cursor.Suits round) (hround : round.isFinal = true)
    (hdue : ∀ pages i, cursor.due (.pooled pages i) = true → i < (s.registry pages).count) :
    (passStep conf s round cursor).isSome = true := by
  cases cursor with
  | single pages | word pages words index =>
      simp only [passStep]
      split <;> rfl
  | count pages => cases round <;> rfl
  | bits pages words index pending =>
      simp only [passStep]
      split
      · rfl
      · rename_i hzero
        have hlt : index * 64 + pending.ctz.toNat < (s.registry pages).count :=
          hdue pages _ (due_bits_lowest hzero)
        rw [(hown.registry pages).layout.slots_eq, if_pos hlt]
        rfl
  | slot pages count index =>
      obtain ⟨requested, rfl⟩ := hsuits
      contradiction
  | done => rfl

theorem visitStep_isSome {round : Round} {resume : Cursor} {p : ProducerId} {stage : Stage}
    (hsnapshot : ∀ tail, stage = .consume tail → tail ≤ (s.producer p).queue.tail) :
    (visitStep conf s round resume p stage).isSome = true := by
  cases stage with
  | consume tail =>
      simp only [visitStep]
      split
      · rename_i hlt
        have hread := Nat.lt_of_lt_of_le hlt (hsnapshot tail rfl)
        rw [List.getElem?_eq_getElem hread]
        rfl
      · rfl
  | remark | markFree =>
      simp only [visitStep]
      split <;> rfl
  | _ => rfl

/-- The consumer always has a next access. -/
theorem consumer_isSome (hown : Ownership conf s) (hpass : PassSound s) (hready : PassReady s)
    (hidling : s.consumer.idling = true) : (step conf s .consumer).isSome = true := by
  have hsuits := hpass.suits
  have hdue := hready.due
  change (consumerStep conf s).isSome = true
  unfold consumerStep
  cases hc : s.consumer with
  | pass round cursor =>
      rw [hc] at hsuits hdue hidling
      exact passStep_isSome hown hsuits hidling hdue
  | visit round resume p stage =>
      refine visitStep_isSome ?_
      rintro tail rfl
      exact hready.snapshot round resume p tail hc
  | _ =>
      rw [hc] at hidling
      contradiction

end Unlog.Handoff
