import Unlog.Handoff.Output

/-! # What a pass takes

A record that was published before a pass began is taken before the pass ends, unless the pass
takes the word of its producer while the ready bit is clear. -/

namespace Unlog.Handoff

variable {conf : Sealed} {s s' : State} {t : ℕ} {r : RecordId}

/-- The visit the consumer is in will take the record. -/
def ConsumerPc.Reads (r : RecordId) : ConsumerPc → Prop
  | .visit _ _ p .readTail => p = r.producer
  | .visit _ _ p (.consume tail) => p = r.producer ∧ r.number < tail
  | _ => False

/-- The record was taken or this pass will take it. -/
def Covered (s : State) (r : RecordId) : Prop :=
  Taken s r ∨ s.consumer.Ahead r.producer ∨ s.consumer.due r.producer = true ∨
    s.consumer.Reads r

def Published (s : State) (r : RecordId) : Prop :=
  r.number < (s.producer r.producer).queue.tail

/-- The consumer takes the word of the producer while its ready bit is clear. -/
def Passes (s : State) (p : ProducerId) : Prop :=
  ∃ round pages words i, p = .pooled pages i ∧ i / 64 < words ∧
    s.consumer = .pass round (.word pages words (i / 64)) ∧ ¬ ReadyBit s pages i

theorem made_of_published (hmakings : Makings conf s) (h : Published s r) :
    Made conf s r.producer := by
  by_contra hnot
  have hqueue := (hmakings.untouched r.producer hnot).queue
  rw [Published, hqueue] at h
  exact absurd h (Nat.not_lt_zero _)

theorem Published.thread (h : Published s r) (hstep : ThreadStep conf s t s') :
    Published s' r := by
  have hrecord := hstep.published (List.getElem?_eq_getElem h)
  exact (List.getElem?_eq_some_iff.mp hrecord).1

theorem Published.consumer (h : Published s r) (hstep : ConsumerStep conf s s') :
    Published s' r := by
  rwa [Published, Queue.tail, hstep.published]

theorem reads_of_visit {p : ProducerId} (h : s.consumer.visit? = some (p, .readTail))
    (hp : p = r.producer) : s.consumer.Reads r := by
  subst hp
  cases hc : s.consumer with
  | visit round resume q stage =>
      simp only [hc, ConsumerPc.visit?, Option.some.injEq, Prod.mk.injEq] at h
      obtain ⟨rfl, rfl⟩ := h
      rfl
  | _ => simp [hc, ConsumerPc.visit?] at h

theorem Covered.thread (h : Covered s r) (hstep : ThreadStep conf s t s') : Covered s' r := by
  rw [Covered, hstep.consumer_eq]
  exact h.imp_left fun htaken => htaken.thread hstep

/-- A visit takes what it has read the tail for. -/
theorem ConsumerStep.reads (hpublished : Published s r) (hstep : ConsumerStep conf s s')
    (h : s.consumer.Reads r) : Taken s' r ∨ s'.consumer.Reads r := by
  have hmono : Taken s r → Taken s' r := fun htaken => htaken.consumer hstep
  cases hstep with
  | readTail hc =>
      rw [hc] at h
      obtain rfl := h
      exact .inr ⟨rfl, hpublished⟩
  | consume => exact .inr h
  | consumed hc hle =>
      rw [hc] at h
      obtain ⟨rfl, hlt⟩ := h
      exact .inl (hmono (Nat.lt_of_lt_of_le hlt hle))
  | repost hc hstage | notRetired hc hstage =>
      rw [hc] at h
      rcases hstage with rfl | rfl <;> exact h.elim
  | sampleTicket hc | startFlush hc | noFlush hc | flushSinks hc | completeFlush hc | stop hc
  | sleep hc | again hc | awake hc | finalFlush hc | singleVisit hc | singleSkip hc | countFlush hc
  | countWords hc | takeWord hc | wordsDone hc | bitsDone hc | bitVisit hc | slotVisit hc
  | slotsDone hc | passDone hc | firstEmpty hc | firstFilled hc | clearEnqueued hc
  | secondEmpty hc | secondFilled hc | remarkWon hc | remarkLost hc | isRetired hc | markFree hc
  | pushFree hc =>
      rw [hc] at h
      exact h.elim

theorem Covered.consumer (hown : Ownership conf s) (hmakings : Makings conf s)
    (hpass : PassSound s) (hpublished : Published s r) (h : Covered s r)
    (hstep : ConsumerStep conf s s') : Covered s' r ∨ Passes s r.producer := by
  rcases h with htaken | hahead | hdue | hreads
  · exact .inl (.inl (htaken.consumer hstep))
  · rcases hstep.ahead hown hpass (made_of_published hmakings hpublished) hahead with
      hahead' | ⟨hvisit, -⟩ | ⟨round, pages, words, i, hp, hlt, hc⟩
    · exact .inl (.inr (.inl hahead'))
    · exact .inl (.inr (.inr (.inr (reads_of_visit hvisit rfl))))
    · by_cases hbit : ReadyBit s pages i
      · refine .inl (.inr (.inr (.inl ?_)))
        rcases hstep.bits hown hmakings with
          ⟨round', pages', words', index, hc', -, hnext, -⟩ | ⟨q, stage, hvisit, -, -⟩ |
            ⟨htake, -⟩
        · rw [hc] at hc'
          simp only [ConsumerPc.pass.injEq, Cursor.word.injEq] at hc'
          obtain ⟨rfl, rfl, rfl, rfl⟩ := hc'
          rw [hnext, hp]
          exact (due_taken words).mpr hbit
        · simp [hc, ConsumerPc.visit?] at hvisit
        · exact absurd hlt (Nat.not_lt_of_le (htake round pages words _ hc))
      · exact .inr ⟨round, pages, words, i, hp, hlt, hc, hbit⟩
  · rcases hstep.due hown hdue with hdue' | hvisit
    · exact .inl (.inr (.inr (.inl hdue')))
    · exact .inl (.inr (.inr (.inr (reads_of_visit hvisit rfl))))
  · rcases hstep.reads hpublished hreads with htaken | hreads'
    · exact .inl (.inl htaken)
    · exact .inl (.inr (.inr (.inr hreads')))

/-- What was covered is taken when the pass ends. -/
theorem Covered.done {round : Round} (h : Covered s r) (hc : s.consumer = .pass round .done) :
    Taken s r := by
  rcases h with htaken | hahead | hdue | hreads
  · exact htaken
  · rw [hc] at hahead
    exact absurd hahead (not_ahead_done _)
  · rw [hc] at hdue
    contradiction
  · rw [hc] at hreads
    exact hreads.elim

theorem covered_first {round : Round} (h : s.consumer = .pass round Cursor.first) :
    Covered s r := by
  refine .inr (.inl ?_)
  rw [h]
  exact ahead_first _

end Unlog.Handoff
