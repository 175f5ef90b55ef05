import Unlog.Handoff.Cursor
import Unlog.Handoff.Made

/-! # Progress of a pass

How a step of the consumer moves its cursor, and what it then has in front of it. -/

namespace Unlog.Handoff

open Library

variable {conf : Sealed} {s s' : State} {p : ProducerId}

/-! ## What the consumer has in front of it -/

namespace ConsumerPc

/-- The pass has still to come to the producer, or to the word of its ready bit. -/
def Ahead (p : ProducerId) : ConsumerPc → Prop
  | .pass _ cursor => cursor.Ahead p
  | .visit _ resume _ _ => resume.Ahead p
  | _ => False

/-- The pass has taken the producer's ready bit and not yet followed it. -/
def due (p : ProducerId) : ConsumerPc → Bool
  | .pass _ cursor => cursor.due p
  | .visit _ resume _ _ => resume.due p
  | _ => false

end ConsumerPc

/-- The ticket of a consumer that may come to sleep on it, and whether all was drained so far. -/
def Round.ticket? : Round → Option (ℕ × Bool)
  | .ready seq allDrained => some (seq, allDrained)
  | _ => none

def ConsumerPc.ticket? : ConsumerPc → Option (ℕ × Bool)
  | .pass round _ => round.ticket?
  | .visit round _ _ _ => round.ticket?
  | .readRequested seq allDrained => some (seq, allDrained)
  | .readStop seq allDrained => some (seq, allDrained)
  | .wait seq => some (seq, true)
  | _ => none

/-- A flush walks the slots, the other rounds the ready bits. -/
def Cursor.Suits (round : Round) : Cursor → Prop
  | .word _ _ _ | .bits _ _ _ _ => ∀ requested, round ≠ .flush requested
  | .slot _ _ _ => ∃ requested, round = .flush requested
  | _ => True

def ConsumerPc.Suits : ConsumerPc → Prop
  | .pass round cursor => cursor.Suits round
  | .visit round resume _ _ => resume.Suits round
  | _ => True

/-- The consumer comes to a producer once for each ready bit it took. -/
def ConsumerPc.Turned : ConsumerPc → Prop
  | .visit _ resume p _ => resume.due p = false
  | _ => True

structure PassSound (s : State) : Prop where
  suits : s.consumer.Suits
  turned : s.consumer.Turned

theorem suits_notDrained {round : Round} {cursor : Cursor} (h : cursor.Suits round) :
    cursor.Suits round.notDrained := by
  cases round <;> cases cursor <;> simp_all [Cursor.Suits, Round.notDrained]

theorem suits_afterSingle (round : Round) (pages : Pages) :
    (Cursor.afterSingle pages).Suits round := by
  cases pages <;> trivial

theorem suits_afterRegistry (round : Round) (pages : Pages) :
    (Cursor.afterRegistry pages).Suits round := by
  cases pages <;> trivial

theorem suits_finish (round : Round) : round.finish.Suits := by
  cases round with
  | final allDrained => cases allDrained <;> trivial
  | _ => trivial

theorem turned_finish (round : Round) : round.finish.Turned := by
  cases round with
  | final allDrained => cases allDrained <;> trivial
  | _ => trivial

/-! ## Steps of the consumer -/

theorem ConsumerStep.passSound (hown : Ownership conf s) (h : PassSound s)
    (hstep : ConsumerStep conf s s') : PassSound s' := by
  obtain ⟨hsuits, hturned⟩ := h
  cases hstep with
  | consume => exact ⟨hsuits, hturned⟩
  | readTail hc | consumed hc | firstEmpty hc | firstFilled hc | clearEnqueued hc
  | secondFilled hc | remarkWon hc | isRetired hc | markFree hc =>
      rw [hc] at hsuits hturned
      exact ⟨hsuits, hturned⟩
  | repost hc | remarkLost hc =>
      rw [hc] at hsuits
      exact ⟨suits_notDrained hsuits, trivial⟩
  | notRetired hc | pushFree hc =>
      rw [hc] at hsuits
      exact ⟨hsuits, trivial⟩
  | secondEmpty hc =>
      rename_i p _
      rw [hc] at hsuits hturned
      cases p with
      | single pages => exact ⟨hsuits, trivial⟩
      | pooled pages index => exact ⟨hsuits, hturned⟩
  | singleVisit => exact ⟨suits_afterSingle _ _, due_afterSingle⟩
  | singleSkip => exact ⟨suits_afterSingle _ _, trivial⟩
  | countFlush => exact ⟨⟨_, rfl⟩, trivial⟩
  | countWords hc hround => exact ⟨hround, trivial⟩
  | takeWord hc | bitsDone hc =>
      rw [hc] at hsuits
      exact ⟨hsuits, trivial⟩
  | wordsDone | slotsDone => exact ⟨suits_afterRegistry _ _, trivial⟩
  | bitVisit hc hzero hslot =>
      rename_i pages words index slot pending
      rw [hc] at hsuits
      obtain ⟨rfl, -⟩ := (hown.registry pages).layout.slot_eq hslot
      refine ⟨hsuits, ?_⟩
      rw [ConsumerPc.Turned, due_bits_next hzero]
      simp
  | slotVisit hc =>
      rw [hc] at hsuits
      exact ⟨hsuits, due_slot⟩
  | passDone => exact ⟨suits_finish _, turned_finish _⟩
  | _ => exact ⟨trivial, trivial⟩

theorem passSound_step {a : Action} (hown : Ownership conf s) (h : PassSound s)
    (hstep : step conf s a = some s') : PassSound s' := by
  rcases step_cases hstep with ⟨t, hthread⟩ | hconsumer
  · exact ⟨hthread.consumer_eq ▸ h.suits, hthread.consumer_eq ▸ h.turned⟩
  · exact hconsumer.passSound hown h

theorem passSound_of_reachable (h : (handoff conf).Reachable s) : PassSound s := by
  refine h.invariant ?_ fun s a s' hs hp hstep => passSound_step (ownership_of_reachable hs) hp hstep
  rintro _ ⟨level, rfl⟩
  exact ⟨trivial, trivial⟩

/-- What is ahead stays ahead, until the pass comes to the producer or takes its word. -/
theorem ConsumerStep.ahead (hown : Ownership conf s) (hpass : PassSound s)
    (hmade : Made conf s p) (hstep : ConsumerStep conf s s') (h : s.consumer.Ahead p) :
    s'.consumer.Ahead p ∨
      s'.consumer.visit? = some (p, .readTail) ∧
        ((∃ pages, p = .single pages) ∨ s'.consumer.ticket? = none) ∨
      ∃ round pages words i, p = .pooled pages i ∧ i / 64 < words ∧
        s.consumer = .pass round (.word pages words (i / 64)) := by
  cases hstep with
  | sampleTicket hc | startFlush hc | noFlush hc | flushSinks hc | completeFlush hc | stop hc
  | sleep hc | again hc | awake hc | finalFlush hc =>
      rw [hc] at h
      exact h.elim
  | consume => exact .inl h
  | readTail hc | consumed hc | firstEmpty hc | firstFilled hc | clearEnqueued hc
  | secondFilled hc | remarkWon hc | isRetired hc | markFree hc | repost hc | remarkLost hc
  | notRetired hc | pushFree hc =>
      rw [hc] at h
      exact .inl h
  | secondEmpty hc =>
      rename_i q _
      rw [hc] at h
      cases q <;> exact .inl h
  | passDone hc =>
      rw [hc] at h
      exact absurd h (not_ahead_done p)
  | singleVisit hc hsingle =>
      rename_i pages
      rw [hc] at h
      by_cases hp : p = .single pages
      · exact .inr (.inl ⟨by rw [hp]; rfl, .inl ⟨pages, hp⟩⟩)
      · exact .inl (ahead_afterSingle h hp)
  | singleSkip hc hsingle =>
      rw [hc] at h
      refine .inl (ahead_afterSingle h ?_)
      rintro rfl
      simp [Made, hsingle] at hmade
  | countFlush hc =>
      rw [hc] at h
      refine .inl (ahead_slots h ?_)
      rintro i rfl
      exact hmade
  | countWords hc =>
      rw [hc] at h
      refine .inl (ahead_words h ?_)
      rintro i rfl
      exact hmade
  | takeWord hc hlt =>
      rename_i round pages words index
      rw [hc] at h
      by_cases hp : ∃ i, p = .pooled pages i ∧ i / 64 = index
      · obtain ⟨i, rfl, rfl⟩ := hp
        exact .inr (.inr ⟨round, pages, words, i, rfl, hlt, hc⟩)
      · exact .inl (ahead_bits h fun i hi heq => hp ⟨i, hi, heq⟩)
  | wordsDone hc hle =>
      rw [hc] at h
      exact .inl (ahead_afterWords h hle)
  | bitsDone hc =>
      rw [hc] at h
      exact .inl (ahead_nextWord h)
  | bitVisit hc =>
      rw [hc] at h
      exact .inl (ahead_dropBit h)
  | slotVisit hc hlt hslot =>
      rename_i pages count index slot
      have hsuits := hpass.suits
      rw [hc] at h hsuits
      obtain ⟨requested, rfl⟩ := hsuits
      obtain ⟨rfl, -⟩ := (hown.registry pages).layout.slot_eq hslot
      by_cases hp : p = .pooled pages slot
      · exact .inr (.inl ⟨by rw [hp]; rfl, .inr rfl⟩)
      · exact .inl (ahead_nextSlot h hp)
  | slotsDone hc hle =>
      rw [hc] at h
      exact .inl (ahead_afterSlots h hle)

/-- A bit that was taken is followed. -/
theorem ConsumerStep.due (hown : Ownership conf s) (hstep : ConsumerStep conf s s')
    (h : s.consumer.due p = true) :
    s'.consumer.due p = true ∨ s'.consumer.visit? = some (p, .readTail) := by
  cases hstep with
  | consume => exact .inl h
  | readTail hc | consumed hc | firstEmpty hc | firstFilled hc | clearEnqueued hc
  | secondFilled hc | remarkWon hc | isRetired hc | markFree hc | repost hc | remarkLost hc
  | notRetired hc | pushFree hc =>
      rw [hc] at h
      exact .inl h
  | secondEmpty hc =>
      rename_i q _
      rw [hc] at h
      cases q <;> exact .inl h
  | bitsDone hc hzero =>
      rw [hc, hzero] at h
      exact absurd (h.symm.trans due_bits_zero) nofun
  | bitVisit hc hzero hslot =>
      rename_i pages words index slot pending
      rw [hc] at h
      obtain ⟨rfl, -⟩ := (hown.registry pages).layout.slot_eq hslot
      by_cases hp : p = .pooled pages (index * 64 + pending.ctz.toNat)
      · exact .inr (by rw [hp]; rfl)
      · refine .inl ((due_bits_next hzero).trans ?_)
        rw [show Cursor.due _ p = true from h]
        simpa using hp
  | _ => simp_all [ConsumerPc.due]

end Unlog.Handoff
