import Unlog.Handoff.Delivery

/-! # How soon a record is taken

Once the consumer has been told of it, a record is taken within a number of accesses of the
consumer that only the configuration decides. -/

namespace Unlog.Handoff

open Library

variable {conf : Sealed} {s s' : State} {a : Action} {t n : ℕ} {r : RecordId}

/-- The longer of the two kinds of pass. -/
def Sealed.sweepSteps (conf : Sealed) : ℕ := max conf.passSteps conf.flushSteps

/-- The rest of a pass, what lies between two passes, and a whole pass. -/
def Sealed.takeSteps (conf : Sealed) : ℕ := 2 * conf.sweepSteps + 7

/-- The pass of the consumer takes the record, or its producer is signalled for the next one. -/
def Announced (s : State) (r : RecordId) : Prop := Coming s r ∨ Signalled s r.producer

/-- The record is taken before the consumer has made `n` accesses. -/
def Due (conf : Sealed) (n : ℕ) (s : State) (r : RecordId) : Prop :=
  Coming s r ∧ s.walkLeft conf < n ∨
    Signalled s r.producer ∧ s.untilPass conf + conf.sweepSteps + 1 < n

theorem walkLeft_le (hs : (handoff conf).Reachable s) : s.walkLeft conf ≤ conf.sweepSteps := by
  cases hround : s.consumer.round? with
  | none =>
      have hzero : s.walkLeft conf = 0 := by
        cases hc : s.consumer with
        | pass | visit =>
            rw [hc] at hround
            contradiction
        | _ => simp only [State.walkLeft, hc]
      omega
  | some round =>
      refine (walkFits_of_reachable hs round hround).trans ?_
      cases round with
      | flush => exact le_max_right _ _
      | ready | final => exact le_max_left _ _

theorem untilPass_le (hs : (handoff conf).Reachable s) :
    s.untilPass conf ≤ conf.sweepSteps + 5 := by
  have hwalk := walkLeft_le hs
  unfold State.untilPass
  split <;> omega

theorem due_of_announced (hs : (handoff conf).Reachable s) (h : Announced s r) :
    Due conf conf.takeSteps s r := by
  have hwalk := walkLeft_le hs
  have hpass := untilPass_le hs
  rw [Due, Sealed.takeSteps]
  refine h.imp (fun hcoming => ⟨hcoming, ?_⟩) fun hsignalled => ⟨hsignalled, ?_⟩ <;> omega

/-- Nobody hides a record of a finished call from the consumer, unless its producer is being
visited or a thread is about to signal it. -/
theorem Returned.announced (hs : (handoff conf).Reachable s) (h : Returned s r)
    (hunmarked : ∀ t, (s.pc t).phase r.producer ≠ .marked)
    (haway : ∀ stage, s.consumer.visit? ≠ some (r.producer, stage)) : Announced s r := by
  rcases h.seen hs with htaken | hsignalled | ⟨t, hmarked⟩ | hdue | ⟨stage, hvisit⟩
  · exact .inl (.inl htaken)
  · exact .inr hsignalled
  · exact absurd hmarked (hunmarked t)
  · exact .inl (.inr (.inl hdue))
  · exact absurd hvisit (haway stage)

theorem Due.thread (hs : (handoff conf).Reachable s) (h : Due conf n s r)
    (hstep : ThreadStep conf s t s') : Due conf n s' r := by
  have hown := ownership_of_reachable hs
  have hmakings := makings_of_reachable hs
  rw [Due, hstep.walkLeft_eq, hstep.untilPass_eq]
  refine h.imp (And.imp_left fun hcoming => ?_) (And.imp_left fun hsignalled => ?_)
  · exact hcoming.thread hown hmakings hstep
  · exact hstep.signalled hown hmakings (ticketSound_of_reachable hs) hsignalled

theorem Due.consumer (hs : Steady conf s) (hpublished : Published s r) (h : Due conf (n + 1) s r)
    (hstep : ConsumerStep conf s s') (hnext : (handoff conf).Reachable s') :
    Taken s' r ∨ Due conf n s' r := by
  have hreach := hs.reachable.reachable
  rcases h with ⟨hcoming, hlt⟩ | ⟨hsignalled, hlt⟩
  · refine (hcoming.walk hreach hpublished hstep).imp_right fun ⟨hcoming', hlt'⟩ => ?_
    exact .inl ⟨hcoming', by omega⟩
  · have hmade := made_of_published (makings_of_reachable hreach) hpublished
    rcases hstep.untilPass_lt hs hmade hsignalled with hsought | ⟨hsignalled', hlt'⟩
    · have hwalk := walkLeft_le hnext
      exact .inr (.inl ⟨hsought.coming, by omega⟩)
    · exact .inr (.inr ⟨hsignalled', by omega⟩)

/-- The accesses of the consumer count down to the taking of the record. -/
theorem countdown_taken (conf : Sealed) (r : RecordId) :
    Countdown (handoff conf) (·.Stays conf) .consumer (fun s => Steady conf s ∧ Published s r)
      (fun s => Taken s r) fun n s => Due conf n s r where
  keeps _ _ _ hs ha hstep := ⟨hs.1.step ha hstep, hs.2.step hstep⟩
  stable s a s' hs htaken _ hstep := by
    rcases step_cases hstep with ⟨t, hthread⟩ | hcons
    · exact htaken.thread hthread
    · exact htaken.consumer hcons
  counts n s s' hs hdue hstep :=
    hdue.consumer hs.1 hs.2 (consumerStep_cases hstep) (hs.1.reachable.reachable.step hstep)
  waits n s a s' hs hdue _ hne hstep := by
    obtain ⟨t, hthread⟩ := (step_cases_consumer hstep).resolve_right fun hc => hne hc.1
    exact .inr (hdue.thread hs.1.reachable.reachable hthread)
  positive _ _ := by
    rintro (⟨-, hlt⟩ | ⟨-, hlt⟩) <;> exact absurd hlt (Nat.not_lt_zero _)

theorem Due.not_asleep (hs : (handoff conf).Reachable s) (h : Due conf n s r)
    (htaken : ¬ Taken s r) (hquiet : ¬ Waking s) : ¬ Asleep s := by
  intro hasleep
  rcases h with ⟨hcoming, -⟩ | ⟨hsignalled, -⟩
  · obtain ⟨round, hround⟩ := hcoming.round?.resolve_left htaken
    exact not_asleep_of_round hround hasleep
  · exact hquiet ((hsignalled.alert (readySound_of_reachable hs)).waking hasleep)

/-! ## The guarantee -/

theorem steady_of_reachable (h : (handoff conf).ReachableWhere (fun _ a => a.Stays conf) s) :
    Steady conf s := by
  induction h with
  | initial hs =>
      obtain ⟨level, rfl⟩ := hs
      exact ⟨.initial ⟨level, rfl⟩, rfl, fun _ => rfl⟩
  | step _ ha hstep ih => exact ih.step ha hstep

/-- How long a record waits where a critical section is one access: once the consumer has been told of
it, it is taken and written before the consumer has made `takeSteps` accesses, whatever the threads
do meanwhile. Only an owed wake-up can keep the consumer from them, and it needs no thread
otherwise. -/
structure TakeLatency (conf : Sealed) (s : State) : Prop where
  announced : ∀ r, Returned s r → (∀ t, (s.pc t).phase r.producer ≠ .marked) →
    (∀ stage, s.consumer.visit? ≠ some (r.producer, stage)) → Announced s r
  bounded : ∀ r actions s', Published s r → Announced s r →
    (∀ a ∈ actions, a.Stays conf) → (handoff conf).run s actions = some s' →
    conf.takeSteps ≤ actions.count .consumer →
    Taken s' r ∧ writesOf r s'.out = targetsOf conf s' r
  unblocked : ∀ r, Announced s r → ¬ Taken s r → ¬ Waking s →
    (step conf s .consumer).isSome = true
  alone : ∀ r, Published s r → Announced s r → ¬ Waking s →
    ∃ k s', k ≤ conf.takeSteps ∧ (handoff conf).run s (List.replicate k .consumer) = some s' ∧
      Taken s' r ∧ writesOf r s'.out = targetsOf conf s' r

theorem takeLatency_of_reachable
    (h : (handoff conf).ReachableWhere (fun _ a => a.Stays conf) s) : TakeLatency conf s := by
  have hsteady := steady_of_reachable h
  have hreach := h.reachable
  have hdue : ∀ r, Announced s r → Due conf conf.takeSteps s r := fun r =>
    due_of_announced hreach
  have hwritten : ∀ actions s', (handoff conf).run s actions = some s' → ∀ r, Taken s' r →
      writesOf r s'.out = targetsOf conf s' r := fun actions s' hrun r =>
    (writtenOnce_of_reachable (hreach.run hrun) r).1
  refine ⟨fun r => Returned.announced hreach,
    fun r actions s' hpublished hannounced hactions hrun hcount => ?_,
    fun r hannounced htaken hquiet => ?_, fun r hpublished hannounced hquiet => ?_⟩
  · have htaken := (countdown_taken conf r).reaches ⟨hsteady, hpublished⟩ (hdue r hannounced)
      hactions hrun hcount
    exact ⟨htaken, hwritten actions s' hrun r htaken⟩
  · exact consumer_ready_of_awake hreach hsteady.not_ended
      ((hdue r hannounced).not_asleep hreach htaken hquiet)
  · have hquieted : ∀ s s', ¬ Waking s → (handoff conf).step s .consumer = some s' →
        ¬ Waking s' := by
      rintro s s' hquiet hstep ⟨t, waker, hpc⟩
      exact hquiet ⟨t, waker, (consumerStep_cases hstep).pc_eq ▸ hpc⟩
    obtain ⟨k, s', hk, hrun, htaken⟩ := (countdown_taken conf r).alone (J := (¬ Waking ·)) trivial
      (fun n s hs hquiet hdue htaken => consumer_ready_of_awake hs.1.reachable.reachable
        hs.1.not_ended (hdue.not_asleep hs.1.reachable.reachable htaken hquiet))
      hquieted ⟨hsteady, hpublished⟩ hquiet (.inr (hdue r hannounced))
    exact ⟨k, s', hk, hrun, htaken, hwritten _ s' hrun r htaken⟩

end Unlog.Handoff
