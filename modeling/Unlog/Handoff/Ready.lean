import Unlog.Handoff.Alert

/-! # Ready bits

A ready bit belongs to a producer of its registry, and the consumer comes to it before it
sleeps. -/

namespace Unlog.Handoff

variable {conf : Sealed} {s s' : State} {t : ℕ} {p : ProducerId} {pages : Pages} {i : ℕ}

/-- The bit of a producer in `active_words`. -/
def ReadyBit (s : State) (pages : Pages) (i : ℕ) : Prop :=
  ((s.registry pages).activeWords (i / 64)).getLsbD (i % 64) = true

/-- The pass that takes a word will follow the bits that were set. -/
theorem due_taken (words : ℕ) :
    (Cursor.bits pages words (i / 64) ((s.registry pages).activeWords (i / 64))).due
      (.pooled pages i) = true ↔ ReadyBit s pages i := by
  rw [due_bits, beq_self_eq_true, Bool.true_and]
  exact Iff.rfl

/-- The producer whose ready bit a thread is about to set. -/
def ThreadPc.signals? : ThreadPc → Option ProducerId
  | .publishBit record => some record.producer
  | .publishRetired pages index => some (.pooled pages index)
  | _ => none

theorem getLsbD_or_bit (word : BitVec 64) {j k : ℕ} (hj : j < 64) :
    (word ||| (1 : BitVec 64) <<< k).getLsbD j = (word.getLsbD j || decide (j = k)) := by
  rw [BitVec.getLsbD_or, BitVec.getLsbD_shiftLeft]
  congr 1
  have hiff : j = k ↔ ¬ j < k ∧ j - k = 0 := by omega
  rw [decide_eq_decide.mpr hiff, Bool.decide_and, decide_not]
  simp [hj]

/-- A signal sets the bit of its producer and no other one. -/
theorem readyBit_publish (hown : Ownership conf s) (hmakings : Makings conf s)
    (hmade : Made conf s p) :
    ReadyBit (s.publishReadyBit p) pages i ↔ ReadyBit s pages i ∨ p = .pooled pages i := by
  cases p with
  | single pages' =>
      have hword := (hmakings.plain pages').1
      simp [State.publishReadyBit, hword]
  | pooled pages' index =>
      have hbinding := (hown.registry pages').layout.binding index hmade
      simp only [Producer.binding, Prod.mk.injEq] at hbinding
      obtain ⟨hword, -, hmask⟩ := hbinding
      simp only [State.publishReadyBit, hword, hmask, ReadyBit]
      by_cases hp : pages = pages'
      · subst hp
        rw [State.setRegistry_registry_self]
        by_cases hi : i / 64 = index / 64
        · have hlt : i % 64 < 64 := Nat.mod_lt _ (by decide)
          have hiff : i % 64 = index % 64 ↔ index = i := by omega
          dsimp only
          rw [hi, Function.update_self, getLsbD_or_bit _ hlt]
          simp [hiff]
        · have hne : index ≠ i := by
            rintro rfl
            exact hi rfl
          simp [Function.update_of_ne hi, hne]
      · simp [State.setRegistry_registry_of_ne _ hp, Ne.symm hp]

theorem made_of_signalling (hown : Ownership conf s) (hmakings : Makings conf s)
    (h : (s.pc t).signals? = some p) : Made conf s p := by
  cases hpc : s.pc t with
  | publishBit record =>
      refine made_of_working hown hmakings (t := t) ?_
      rw [hpc] at h ⊢
      exact h
  | publishRetired pages index =>
      simp only [hpc, ThreadPc.signals?, Option.some.injEq] at h
      subst h
      exact (hown.pc t).publishing pages index hpc
  | _ => simp [hpc, ThreadPc.signals?] at h

/-! ## Steps -/

theorem readyBit_setRegistry {pages' : Pages} {value : Registry}
    (h : value.activeWords = (s.registry pages').activeWords) :
    ReadyBit (s.setRegistry pages' value) pages i ↔ ReadyBit s pages i := by
  by_cases hp : pages = pages'
  · subst hp
    rw [ReadyBit, ReadyBit, State.setRegistry_registry_self, h]
  · rw [ReadyBit, ReadyBit, State.setRegistry_registry_of_ne _ hp]

theorem ThreadStep.readyBit (hown : Ownership conf s) (hmakings : Makings conf s)
    (hstep : ThreadStep conf s t s') (pages : Pages) (i : ℕ) :
    ReadyBit s' pages i ↔ ReadyBit s pages i ∨ (s.pc t).signals? = some (.pooled pages i) := by
  cases hstep with
  | publishBit hpc | publishRetired hpc =>
      have hmade := made_of_signalling hown hmakings (t := t) (by rw [hpc]; rfl)
      refine (readyBit_publish hown hmakings hmade).trans ?_
      simp [hpc, ThreadPc.signals?]
  | recycle hpc | create hpc =>
      refine (readyBit_setRegistry (by rfl)).trans ?_
      simp [hpc, ThreadPc.signals?]
  | move hmove =>
      have hnone : (s.pc t).signals? = none := by
        generalize s.pc t = pc at hmove
        cases hmove <;> rfl
      simp [hnone, ReadyBit]
  | wake hpc =>
      rename_i waker
      cases waker <;> simp [hpc, ThreadPc.signals?, ReadyBit, wakeStep]
  | flushLeft hpc =>
      rcases hpc with hpc | ⟨target, before, hpc⟩ <;> simp [hpc, ThreadPc.signals?, ReadyBit]
  | setLevel level hpc =>
      rcases hpc with ⟨channel, value, hpc⟩ | ⟨value, hpc⟩ <;>
        simp [hpc, ThreadPc.signals?, ReadyBit]
  | call call hpc | claimOwner hpc | publish _ hpc | countDropped hpc | countEmitted hpc
  | countTruncated hpc | markWon hpc | markLost hpc | retire hpc | retireLost hpc | flushAdmit hpc
  | flushRequest hpc | destroy hpc | requestStop hpc | joined hpc | resetSinks hpc
  | finishDestroy _ hpc => simp [hpc, ThreadPc.signals?, ReadyBit]

/-- Who sets a ready bit wakes the consumer next. -/
theorem ThreadStep.waking (hstep : ThreadStep conf s t s') (h : (s.pc t).signals? ≠ none) :
    Waking s' := by
  cases hstep with
  | publishBit | publishRetired => exact ⟨t, _, State.setPc_pc_self _⟩
  | move hmove =>
      refine absurd ?_ h
      generalize s.pc t = pc at hmove
      cases hmove <;> rfl
  | flushLeft hpc =>
      rcases hpc with hpc | ⟨target, before, hpc⟩ <;> simp [hpc, ThreadPc.signals?] at h
  | setLevel level hpc =>
      rcases hpc with ⟨channel, value, hpc⟩ | ⟨value, hpc⟩ <;> simp [hpc, ThreadPc.signals?] at h
  | _ => simp_all [ThreadPc.signals?]

/-- An exchange of a word with zero clears its bits and no other ones. -/
theorem readyBit_exchange {pages' : Pages} {index : ℕ} :
    ReadyBit (s.setRegistry pages { s.registry pages with
      activeWords := Function.update (s.registry pages).activeWords index 0 }) pages' i ↔
      ReadyBit s pages' i ∧ ¬ (pages' = pages ∧ i / 64 = index) := by
  by_cases hp : pages' = pages
  · subst hp
    simp only [ReadyBit, State.setRegistry_registry_self]
    by_cases hi : i / 64 = index
    · simp [hi]
    · simp [hi]
  · simp [ReadyBit, State.setRegistry_registry_of_ne _ hp, hp]

/-- The consumer clears a word, sets a bit again after a visit, or leaves the bits alone. -/
inductive ConsumerStep.Bits (s s' : State) : Prop
  | take (round : Round) (pages : Pages) (words index : ℕ)
      (h : s.consumer = .pass round (.word pages words index)) (hlt : index < words)
      (h' : s'.consumer =
        .pass round (.bits pages words index ((s.registry pages).activeWords index)))
      (hbits : ∀ pages' i, ReadyBit s' pages' i ↔
        ReadyBit s pages' i ∧ ¬ (pages' = pages ∧ i / 64 = index))
  | repost (p : ProducerId) (stage : Stage) (h : s.consumer.visit? = some (p, stage))
      (hquiet : ∀ q, Alert s' q)
      (hbits : ∀ pages i, ReadyBit s' pages i ↔ ReadyBit s pages i ∨ p = .pooled pages i)
  | keep (htake : ∀ round pages words index, s.consumer = .pass round (.word pages words index) →
        words ≤ index)
      (hbits : ∀ pages i, ReadyBit s' pages i ↔ ReadyBit s pages i)

theorem ConsumerStep.bits (hown : Ownership conf s) (hmakings : Makings conf s)
    (hstep : ConsumerStep conf s s') : ConsumerStep.Bits s s' := by
  cases hstep with
  | takeWord hc hlt =>
      rename_i round pages words index
      exact .take round pages words index hc hlt rfl fun pages' i => readyBit_exchange
  | repost hc =>
      rename_i p stage _
      have hvisit : s.consumer.visit? = some (p, stage) := by rw [hc]; rfl
      exact .repost p stage hvisit (fun q => alert_notDrained rfl) fun pages i =>
        readyBit_publish hown hmakings (made_of_visiting hown hmakings hvisit)
  | pushFree hc => exact .keep (by simp [hc]) fun pages i => readyBit_setRegistry (by rfl)
  | wordsDone hc hle =>
      refine .keep ?_ fun pages i => Iff.rfl
      simp only [hc, ConsumerPc.pass.injEq, Cursor.word.injEq]
      rintro _ _ _ _ ⟨-, -, rfl, rfl⟩
      exact hle
  | _ => exact .keep (by simp_all) fun pages i => Iff.rfl

/-- Only bits of registered producers are ever set. -/
theorem readyBit_lt {a : Action} (hown : Ownership conf s) (hmakings : Makings conf s)
    (hstep : step conf s a = some s')
    (h : ∀ i, ReadyBit s pages i → i < (s.registry pages).count) (hbit : ReadyBit s' pages i) :
    i < (s'.registry pages).count := by
  refine Nat.lt_of_lt_of_le ?_ (count_le hown hstep pages)
  rcases step_cases hstep with ⟨t, hthread⟩ | hconsumer
  · rcases (hthread.readyBit hown hmakings pages i).mp hbit with hold | hnew
    · exact h i hold
    · exact made_of_signalling hown hmakings hnew
  · rcases hconsumer.bits hown hmakings with
      ⟨_, _, _, _, _, _, _, hbits⟩ | ⟨p, stage, hvisit, -, hbits⟩ | ⟨-, hbits⟩
    · exact h i ((hbits pages i).mp hbit).1
    · rcases (hbits pages i).mp hbit with hold | rfl
      · exact h i hold
      · exact made_of_visiting hown hmakings hvisit
    · exact h i ((hbits pages i).mp hbit)

/-! ## The invariant -/

structure ReadySound (s : State) : Prop where
  range : ∀ pages i, ReadyBit s pages i → i < (s.registry pages).count
  alert : ∀ pages i, ReadyBit s pages i → Alert s (.pooled pages i)

theorem alert_thread (h : ReadySound s) (hown : Ownership conf s) (hmakings : Makings conf s)
    (htickets : TicketSound s) (hstep : ThreadStep conf s t s') (hbit : ReadyBit s' pages i) :
    Alert s' (.pooled pages i) := by
  rcases (hstep.readyBit hown hmakings pages i).mp hbit with hold | hnew
  · exact (h.alert pages i hold).thread htickets hstep
  · exact alert_of_waking (hstep.waking (by simp [hnew]))

theorem alert_consumer (h : ReadySound s) (hown : Ownership conf s) (hmakings : Makings conf s)
    (hpass : PassSound s) (hstep : ConsumerStep conf s s') (hbit : ReadyBit s' pages i) :
    Alert s' (.pooled pages i) := by
  -- a bit that stays set is not in the word the consumer takes
  have hkeep : ReadyBit s pages i →
      (∀ round words, s.consumer = .pass round (.word pages words (i / 64)) → words ≤ i / 64) →
      Alert s' (.pooled pages i) := by
    intro hbit htake
    rcases (h.alert pages i hbit).consumer hown hpass (h.range pages i hbit) hstep with
      halert | ⟨⟨pages', hsingle⟩, -⟩ | ⟨round, pages', words, i', hp, hlt, hc⟩
    · exact halert
    · contradiction
    · obtain ⟨rfl, rfl⟩ := ProducerId.pooled.inj hp
      exact absurd hlt (Nat.not_lt_of_le (htake round words hc))
  rcases hstep.bits hown hmakings with
    ⟨round, pages', words, index, hc, -, -, hbits⟩ | ⟨p, stage, hvisit, hquiet, hbits⟩ |
      ⟨htake, hbits⟩
  · obtain ⟨hold, hother⟩ := (hbits pages i).mp hbit
    refine hkeep hold fun round' words' hc' => ?_
    rw [hc] at hc'
    simp only [ConsumerPc.pass.injEq, Cursor.word.injEq] at hc'
    exact absurd ⟨hc'.2.1.symm, hc'.2.2.2.symm⟩ hother
  · exact hquiet _
  · exact hkeep ((hbits pages i).mp hbit) fun round words => htake round pages words _

theorem readySound_of_reachable (h : (handoff conf).Reachable s) : ReadySound s := by
  refine h.invariant ?_ fun s a s' hs hready hstep => ?_
  · rintro _ ⟨level, rfl⟩
    exact ⟨fun pages i hbit => by simp [ReadyBit, State.started] at hbit,
      fun pages i hbit => by simp [ReadyBit, State.started] at hbit⟩
  · have hown := ownership_of_reachable hs
    have hmakings := makings_of_reachable hs
    refine ⟨fun pages i => readyBit_lt hown hmakings hstep (hready.range pages),
      fun pages i hbit => ?_⟩
    rcases step_cases hstep with ⟨t, hthread⟩ | hconsumer
    · exact alert_thread hready hown hmakings (ticketSound_of_reachable hs) hthread hbit
    · exact alert_consumer hready hown hmakings (passSound_of_reachable hs) hconsumer hbit

end Unlog.Handoff
