import Unlog.Handoff.Pass

/-! # What keeps the consumer awake

A consumer that may come to sleep on its ticket, and the ready bits of the registries. -/

namespace Unlog.Handoff

variable {conf : Sealed} {s s' : State} {t : ℕ} {p : ProducerId}

/-! ## Tickets -/

/-- A thread has raised a condition and is about to bump `wake_seq`. -/
def Waking (s : State) : Prop := ∃ t waker, s.pc t = .wake waker

/-- The consumer will not sleep on this ticket. -/
def Notified (s : State) (seq : ℕ) : Prop := seq < s.wakeSeq ∨ Waking s

/-- The consumer will come to the producer before it sleeps. -/
def Alert (s : State) (p : ProducerId) : Prop :=
  ∀ seq allDrained, s.consumer.ticket? = some (seq, allDrained) →
    allDrained = false ∨ s.consumer.Ahead p ∨ Notified s seq

def TicketSound (s : State) : Prop :=
  ∀ seq allDrained, s.consumer.ticket? = some (seq, allDrained) → seq ≤ s.wakeSeq

theorem ticket?_notDrained {round : Round} {seq : ℕ} {allDrained : Bool}
    (h : round.notDrained.ticket? = some (seq, allDrained)) :
    allDrained = false ∧ ∃ before, round.ticket? = some (seq, before) := by
  cases round <;> simp_all [Round.notDrained, Round.ticket?]

/-- A step of the consumer keeps its ticket, or it has taken a new one. -/
theorem ConsumerStep.ticket (hstep : ConsumerStep conf s s') {seq : ℕ} {allDrained : Bool}
    (h : s'.consumer.ticket? = some (seq, allDrained)) :
    (∃ before, s.consumer.ticket? = some (seq, before) ∧ (before = false → allDrained = false)) ∨
      seq = s.wakeSeq ∧ ∀ p, s'.consumer.Ahead p := by
  cases hstep with
  | sampleTicket hc =>
      simp only [ConsumerPc.ticket?, Round.ticket?, Option.some.injEq, Prod.mk.injEq] at h
      exact .inr ⟨h.1.symm, ahead_first⟩
  | repost hc | remarkLost hc =>
      obtain ⟨hfalse, before, hbefore⟩ := ticket?_notDrained h
      exact .inl ⟨before, by rw [hc]; exact hbefore, fun _ => hfalse⟩
  | consume => exact .inl ⟨allDrained, h, id⟩
  | secondEmpty hc =>
      rename_i q _
      refine .inl ⟨allDrained, ?_, id⟩
      rw [hc]
      cases q <;> exact h
  | passDone hc =>
      rename_i round
      refine .inl ⟨allDrained, ?_, id⟩
      rw [hc]
      cases round with
      | ready => exact h
      | flush => simp [Round.finish, ConsumerPc.ticket?] at h
      | final drained => cases drained <;> simp [Round.finish, ConsumerPc.ticket?, Round.ticket?] at h
  | startFlush | flushSinks | completeFlush | stop | again | awake | finalFlush =>
      simp [ConsumerPc.ticket?, Round.ticket?] at h
  | noFlush hc | sleep hc | readTail hc | consumed hc | firstEmpty hc | firstFilled hc
  | clearEnqueued hc | secondFilled hc | remarkWon hc | isRetired hc | markFree hc | notRetired hc
  | pushFree hc | singleVisit hc | singleSkip hc | countFlush hc | countWords hc | takeWord hc
  | wordsDone hc | bitsDone hc | bitVisit hc | slotVisit hc | slotsDone hc =>
      exact .inl ⟨allDrained, by rw [hc]; exact h, id⟩

theorem ConsumerStep.notified (hstep : ConsumerStep conf s s') (seq : ℕ) :
    Notified s' seq ↔ Notified s seq := by
  rw [Notified, Notified, Waking, Waking, hstep.wakeSeq_eq, hstep.pc_eq]

theorem ThreadStep.notified (hstep : ThreadStep conf s t s') {seq : ℕ} (hseq : seq ≤ s.wakeSeq)
    (h : Notified s seq) : Notified s' seq := by
  rcases hstep.wakeSeq_eq with ⟨-, hwake⟩ | ⟨hpc, hwake⟩
  · exact .inl (by omega)
  · rcases h with hlt | ⟨other, waker, hother⟩
    · exact .inl (by omega)
    · have hne : other ≠ t := by
        rintro rfl
        exact hpc waker hother
      exact .inr ⟨other, waker, by rw [hstep.pc_of_ne hne, hother]⟩

theorem ticketSound_step {a : Action} (h : TicketSound s) (hstep : step conf s a = some s') :
    TicketSound s' := by
  intro seq allDrained hticket
  rcases step_cases hstep with ⟨t, hthread⟩ | hconsumer
  · rw [hthread.consumer_eq] at hticket
    have hle := h seq allDrained hticket
    rcases hthread.wakeSeq_eq with ⟨-, hwake⟩ | ⟨-, hwake⟩ <;> omega
  · rw [hconsumer.wakeSeq_eq]
    rcases hconsumer.ticket hticket with ⟨before, hbefore, -⟩ | ⟨rfl, -⟩
    · exact h seq before hbefore
    · exact Nat.le_refl _

theorem ticketSound_of_reachable (h : (handoff conf).Reachable s) : TicketSound s := by
  refine h.invariant ?_ fun s a s' _ hs hstep => ticketSound_step hs hstep
  rintro _ ⟨level, rfl⟩
  exact nofun

/-! ## Alertness -/

theorem alert_of_waking (h : Waking s) : Alert s p := fun _ _ _ => .inr (.inr (.inr h))

theorem alert_of_no_ticket (h : s.consumer.ticket? = none) : Alert s p :=
  fun _ _ hticket => absurd (h.symm.trans hticket) nofun

theorem alert_notDrained {round : Round} {cursor : Cursor}
    (h : s.consumer = .pass round.notDrained cursor) : Alert s p := by
  intro seq allDrained hticket
  rw [h] at hticket
  exact .inl (ticket?_notDrained hticket).1

theorem Alert.thread (h : Alert s p) (htickets : TicketSound s)
    (hstep : ThreadStep conf s t s') : Alert s' p := by
  intro seq allDrained hticket
  rw [hstep.consumer_eq] at hticket ⊢
  rcases h seq allDrained hticket with hfalse | hahead | hnotified
  · exact .inl hfalse
  · exact .inr (.inl hahead)
  · exact .inr (.inr (hstep.notified (htickets seq allDrained hticket) hnotified))

/-- The consumer stays alert for a producer until it comes to it or takes its word. -/
theorem Alert.consumer (h : Alert s p) (hown : Ownership conf s) (hpass : PassSound s)
    (hmade : Made conf s p) (hstep : ConsumerStep conf s s') :
    Alert s' p ∨ (∃ pages, p = .single pages) ∧ s'.consumer.visit? = some (p, .readTail) ∨
      ∃ round pages words i, p = .pooled pages i ∧ i / 64 < words ∧
        s.consumer = .pass round (.word pages words (i / 64)) := by
  by_cases hahead : s.consumer.Ahead p
  · rcases hstep.ahead hown hpass hmade hahead with hahead' | ⟨hvisit, hsingle | hticket⟩ | htake
    · exact .inl fun _ _ _ => .inr (.inl hahead')
    · exact .inr (.inl ⟨hsingle, hvisit⟩)
    · exact .inl (alert_of_no_ticket hticket)
    · exact .inr (.inr htake)
  · refine .inl fun seq allDrained hticket => ?_
    rcases hstep.ticket hticket with ⟨before, hbefore, himp⟩ | ⟨-, hahead'⟩
    · rcases h seq before hbefore with hfalse | hahead' | hnotified
      · exact .inl (himp hfalse)
      · exact absurd hahead' hahead
      · exact .inr (.inr ((hstep.notified seq).mpr hnotified))
    · exact .inr (.inl (hahead' p))

end Unlog.Handoff
