import Unlog.Handoff.Returns

/-! # Every record is delivered

While the runtime runs, a record that was published reaches its sinks without any flush: the
thread that published it comes to its signal, the signal brings the consumer to the producer, and
the pass takes the record. -/

namespace Unlog.Handoff

open Library

variable {conf : Sealed} {s s' : State} {a : Action} {t : ℕ} {p : ProducerId} {r : RecordId}

/-! ## A runtime that stays -/

/-- A log call names a channel of the runtime, and nobody shuts it down. -/
def Action.Stays (conf : Sealed) : Action → Prop
  | .call _ .processExit => False
  | .call _ .reset => False
  | a => a.Known conf

theorem Action.Stays.known (h : a.Stays conf) : a.Known conf := by
  cases a with
  | call t call => cases call <;> first | exact h | exact h.elim
  | _ => exact h

structure Steady (conf : Sealed) (s : State) : Prop where
  reachable : (handoff conf).ReachableWhere (fun _ a => a.Known conf) s
  calm : Calm s

theorem Steady.step (h : Steady conf s) (ha : a.Stays conf)
    (hstep : Handoff.step conf s a = some s') : Steady conf s' where
  reachable := .step h.reachable ha.known hstep
  calm := by
    refine h.calm.step hstep ?_
    rintro t call rfl
    cases call with
    | processExit | reset => exact ha.elim
    | release pages =>
        rw [Call.entry]
        split <;> rfl
    | _ => rfl

theorem Steady.not_halting (h : Steady conf s) : ¬ s.Halting :=
  fun hhalting =>
    Halting.not_running hhalting (destroySound_of_reachable h.reachable.reachable) h.calm.1

theorem Steady.not_ended (h : Steady conf s) : s.consumer ≠ .ended :=
  fun hc => h.not_halting (.inr (.inl (by rw [hc]; rfl)))

/-! ## The consumer comes -/

/-- The pass will not miss the producer when it comes to it, or to its word. -/
def Flagged (s : State) : ProducerId → Prop
  | .single _ => True
  | .pooled pages index => ReadyBit s pages index

/-- This pass comes to the producer, or has just come to it. -/
def Sought (s : State) (p : ProducerId) : Prop :=
  s.consumer.due p = true ∨ s.consumer.visit? = some (p, .readTail) ∨
    s.consumer.Ahead p ∧ Flagged s p

/-- The record was taken, or this pass will take it. -/
def Coming (s : State) (r : RecordId) : Prop :=
  Taken s r ∨ s.consumer.due r.producer = true ∨ s.consumer.Reads r ∨
    s.consumer.Ahead r.producer ∧ Flagged s r.producer

theorem Coming.covered (h : Coming s r) : Covered s r := by
  rcases h with htaken | hdue | hreads | ⟨hahead, -⟩
  · exact .inl htaken
  · exact .inr (.inr (.inl hdue))
  · exact .inr (.inr (.inr hreads))
  · exact .inr (.inl hahead)

/-- Before the record is taken, the consumer is in a pass. -/
theorem Coming.round? (h : Coming s r) : Taken s r ∨ ∃ round, s.consumer.round? = some round := by
  rcases h with htaken | hgoes
  · exact .inl htaken
  · refine .inr ?_
    cases hc : s.consumer with
    | pass round | visit round => exact ⟨round, rfl⟩
    | _ =>
        rw [hc] at hgoes
        rcases hgoes with h | h | ⟨h, -⟩ <;> contradiction

theorem Coming.thread (hown : Ownership conf s) (hmakings : Makings conf s) (h : Coming s r)
    (hstep : ThreadStep conf s t s') : Coming s' r := by
  rw [Coming, hstep.consumer_eq]
  refine h.imp (fun htaken => htaken.thread hstep) (Or.imp_right (Or.imp_right ?_))
  refine fun ⟨hahead, hflagged⟩ => ⟨hahead, ?_⟩
  cases hp : r.producer with
  | single pages => trivial
  | pooled pages index =>
      rw [hp] at hflagged
      exact (hstep.readyBit hown hmakings pages index).mpr (.inl hflagged)

theorem Sought.coming (h : Sought s r.producer) : Coming s r := by
  rcases h with hdue | hvisit | hahead
  · exact .inr (.inl hdue)
  · exact .inr (.inr (.inl (reads_of_visit hvisit rfl)))
  · exact .inr (.inr (.inr hahead))

theorem Sought.thread (hown : Ownership conf s) (hmakings : Makings conf s) (h : Sought s p)
    (hstep : ThreadStep conf s t s') : Sought s' p := by
  rw [Sought, hstep.consumer_eq]
  refine h.imp_right (Or.imp_right fun ⟨hahead, hflagged⟩ => ⟨hahead, ?_⟩)
  cases p with
  | single pages => trivial
  | pooled pages index => exact (hstep.readyBit hown hmakings pages index).mpr (.inl hflagged)

/-- A ready bit stays, or the pass that takes its word has its producer in front of it. -/
theorem ConsumerStep.readyBit (hown : Ownership conf s) (hmakings : Makings conf s)
    (hstep : ConsumerStep conf s s') {pages : Pages} {i : ℕ} (hbit : ReadyBit s pages i) :
    s'.consumer.due (.pooled pages i) = true ∨ ReadyBit s' pages i ∧
      ∀ round words, s.consumer = .pass round (.word pages words (i / 64)) → words ≤ i / 64 := by
  rcases hstep.bits hown hmakings with
    ⟨round, pages', words, index, hc, hlt, hc', hbits⟩ | ⟨q, stage, hvisit, -, hbits⟩ |
      ⟨htake, hbits⟩
  · by_cases hword : pages = pages' ∧ i / 64 = index
    · obtain ⟨rfl, rfl⟩ := hword
      rw [hc']
      exact .inl ((due_taken words).mpr hbit)
    · refine .inr ⟨(hbits pages i).mpr ⟨hbit, hword⟩, fun round' words' hother => ?_⟩
      rw [hc] at hother
      simp only [ConsumerPc.pass.injEq, Cursor.word.injEq] at hother
      exact absurd ⟨hother.2.1.symm, hother.2.2.2.symm⟩ hword
  · refine .inr ⟨(hbits pages i).mpr (.inl hbit), fun round' words' hother => ?_⟩
    rw [hother] at hvisit
    contradiction
  · exact .inr ⟨(hbits pages i).mpr hbit, fun round words => htake round pages words _⟩

/-- The consumer comes to the producer that it is after. -/
theorem Sought.consumer (hown : Ownership conf s) (hmakings : Makings conf s)
    (hpass : PassSound s) (hmade : Made conf s p) (h : Sought s p)
    (hstep : ConsumerStep conf s s') :
    Sought s' p ∨ s.consumer.visit? = some (p, .readTail) := by
  rcases h with hdue | hvisit | ⟨hahead, hflagged⟩
  · exact .inl ((hstep.due hown hdue).imp_right .inl)
  · exact .inr hvisit
  · have hnext := hstep.ahead hown hpass hmade hahead
    cases p with
    | single pages =>
        rcases hnext with hahead' | ⟨hvisit, -⟩ | ⟨_, _, _, _, hpooled, -⟩
        · exact .inl (.inr (.inr ⟨hahead', trivial⟩))
        · exact .inl (.inr (.inl hvisit))
        · contradiction
    | pooled pages index =>
        rcases hstep.readyBit hown hmakings hflagged with hdue | ⟨hbit, htake⟩
        · exact .inl (.inl hdue)
        · rcases hnext with hahead' | ⟨hvisit, -⟩ | ⟨round, _, words, _, hpooled, hlt, hc⟩
          · exact .inl (.inr (.inr ⟨hahead', hbit⟩))
          · exact .inl (.inr (.inl hvisit))
          · obtain ⟨rfl, rfl⟩ := ProducerId.pooled.inj hpooled
            exact absurd hlt (Nat.not_lt_of_le (htake round words hc))

theorem Coming.consumer (hown : Ownership conf s) (hmakings : Makings conf s)
    (hpass : PassSound s) (hpublished : Published s r) (h : Coming s r)
    (hstep : ConsumerStep conf s s') : Coming s' r := by
  have hreads : s.consumer.Reads r → Coming s' r := fun hreads =>
    (hstep.reads hpublished hreads).imp_right fun hreads' => .inr (.inl hreads')
  have hsought : Sought s r.producer → Coming s' r := by
    intro hsought
    rcases hsought.consumer hown hmakings hpass (made_of_published hmakings hpublished) hstep with
      hsought' | hvisit
    · exact hsought'.coming
    · exact hreads (reads_of_visit hvisit rfl)
  rcases h with htaken | hdue | hread | hahead
  · exact .inl (htaken.consumer hstep)
  · exact hsought (.inl hdue)
  · exact hreads hread
  · exact hsought (.inr (.inr hahead))

/-- Each access of the consumer brings it nearer to the record. -/
theorem Coming.walk (hs : (handoff conf).Reachable s) (hpublished : Published s r)
    (h : Coming s r) (hstep : ConsumerStep conf s s') :
    Taken s' r ∨ Coming s' r ∧ s'.walkLeft conf < s.walkLeft conf := by
  have hown := ownership_of_reachable hs
  have hpass := passSound_of_reachable hs
  rcases h.round? with htaken | ⟨round, hround⟩
  · exact .inl (htaken.consumer hstep)
  · rcases hstep.walk hown hpass (fits_of_reachable hs) hround with ⟨hlt, -⟩ | ⟨hc, -⟩
    · exact .inr ⟨h.consumer hown (makings_of_reachable hs) hpass hpublished hstep, hlt⟩
    · exact .inl ((h.covered.done hc).consumer hstep)

/-! ## A signal brings the consumer -/

/-- The accesses until the consumer begins a pass, at most. -/
def State.untilPass (conf : Sealed) (s : State) : ℕ :=
  match s.consumer with
  | .sampleTicket => 1
  | .pass _ _ | .visit _ _ _ _ => s.walkLeft conf + 5
  | .readRequested _ _ => 4
  | .flushSinks _ => 3
  | .completeFlush _ => 2
  | .readStop _ _ => 3
  | .wait _ => 2
  | .finalFlush | .ended => 0

theorem untilPass_of_round {round : Round} (h : s.consumer.round? = some round) :
    s.untilPass conf = s.walkLeft conf + 5 := by
  cases hc : s.consumer with
  | pass | visit => simp only [State.untilPass, hc]
  | _ =>
      rw [hc] at h
      contradiction

theorem Signalled.alert (hready : ReadySound s) (h : Signalled s p) :
    Alert s p := by
  cases p with
  | single pages => exact h
  | pooled pages index => exact hready.alert pages index h

theorem Alert.waking (h : Alert s p) (hasleep : Asleep s) : Waking s := by
  obtain ⟨seq, hc, hseq⟩ := hasleep
  rcases h seq true (by rw [hc]; rfl) with hfalse | hahead | hlt | hwaking
  · contradiction
  · rw [hc] at hahead
    exact hahead.elim
  · omega
  · exact hwaking

/-- A pass that begins comes to every producer that is signalled. -/
theorem sought_first {round : Round} (hsignalled : Signalled s p)
    (h : s.consumer = .pass round Cursor.first) : Sought s p := by
  refine .inr (.inr ⟨?_, ?_⟩)
  · rw [h]
    exact ahead_first _
  · cases p with
    | single pages => trivial
    | pooled pages index => exact hsignalled

/-- A signal stays until the consumer comes. -/
theorem ConsumerStep.signal (hs : (handoff conf).Reachable s) (hmade : Made conf s p)
    (h : Signalled s p) (hstep : ConsumerStep conf s s') : Sought s' p ∨ Signalled s' p := by
  have hown := ownership_of_reachable hs
  cases p with
  | single pages =>
      rcases Alert.consumer h hown (passSound_of_reachable hs) hmade hstep with
        halert | ⟨-, hvisit⟩ | ⟨_, _, _, _, hpooled, -⟩
      · exact .inr halert
      · exact .inl (.inr (.inl hvisit))
      · contradiction
  | pooled pages index =>
      exact (hstep.readyBit hown (makings_of_reachable hs) h).imp .inl And.left

/-- Each access of an awake consumer brings the next pass nearer. -/
theorem ConsumerStep.untilPass_lt (hs : Steady conf s) (hmade : Made conf s p)
    (h : Signalled s p) (hstep : ConsumerStep conf s s') :
    Sought s' p ∨ Signalled s' p ∧ s'.untilPass conf < s.untilPass conf := by
  have hreach := hs.reachable.reachable
  have hnot := hs.not_halting
  rcases hstep.signal hreach hmade h with hsought | hsignalled
  · exact .inl hsought
  · have hnearer : s'.untilPass conf < s.untilPass conf →
        Sought s' p ∨ Signalled s' p ∧ s'.untilPass conf < s.untilPass conf :=
      fun hlt => .inr ⟨hsignalled, hlt⟩
    cases hround : s.consumer.round? with
    | some round =>
        have hpass : s.untilPass conf = s.walkLeft conf + 5 := untilPass_of_round hround
        rcases hstep.walk (ownership_of_reachable hreach) (passSound_of_reachable hreach)
          (fits_of_reachable hreach) hround with ⟨hlt, hround' | hround'⟩ | ⟨hc, hfinish⟩
        · exact hnearer (by rw [hpass, untilPass_of_round hround']; omega)
        · exact hnearer (by rw [hpass, untilPass_of_round hround']; omega)
        · refine hnearer ?_
          have hlast : s.walkLeft conf = 1 := by
            simp only [State.walkLeft, hc]
            cases round <;> rfl
          rw [hpass, hlast, State.untilPass, hfinish]
          cases round with
          | final => exact absurd (.inr (.inl (by rw [hc]; rfl))) hnot
          | ready | flush => simp [Round.finish]
    | none =>
        cases hstep with
        | sampleTicket | startFlush => exact .inl (sought_first hsignalled rfl)
        | stop hc hstop => exact absurd (.inl hstop) hnot
        | finalFlush hc => exact absurd (.inr (.inl (by rw [hc]; rfl))) hnot
        | noFlush hc | flushSinks hc | completeFlush hc | again hc | sleep hc | awake hc =>
            exact hnearer (by simp [State.untilPass, hc])
        | consume hc | singleVisit hc | singleSkip hc | countFlush hc | countWords hc | takeWord hc
        | wordsDone hc | bitsDone hc | bitVisit hc | slotVisit hc | slotsDone hc | readTail hc
        | consumed hc | firstEmpty hc | firstFilled hc | clearEnqueued hc | secondEmpty hc
        | secondFilled hc | remarkWon hc | remarkLost hc | repost hc | isRetired hc | markFree hc
        | notRetired hc | pushFree hc | passDone hc =>
            rw [hc] at hround
            contradiction

theorem ThreadStep.untilPass_eq (hstep : ThreadStep conf s t s') :
    s'.untilPass conf = s.untilPass conf := by
  rw [State.untilPass, State.untilPass, hstep.walkLeft_eq, hstep.consumer_eq]

theorem signals?_of_phase {pc : ThreadPc} (h : pc.phase p = .marked) :
    pc.signals? = some p := by
  obtain ⟨record, rfl, hp⟩ := publishBit_of_phase h
  exact congrArg some hp

theorem signals_ready (h : (s.pc t).signals? = some p) :
    (step conf s (.thread t)).isSome = true := by
  cases hpc : s.pc t with
  | publishBit | publishRetired => simp only [step, threadStep, hpc, Option.isSome_some]
  | _ =>
      rw [hpc] at h
      contradiction

variable {σ : ℕ → State}

section Behaviour

variable (h : (handoff conf).Behaviour (·.Stays conf) σ) (hI : ∀ k, Steady conf (σ k))
  (hconsumer : (handoff conf).WeaklyFair σ (· = .consumer))
include h hI hconsumer

theorem leadsTo_taken :
    LeadsTo σ (fun s => Published s r ∧ Coming s r) fun s => Taken s r := by
  refine .cases (fun s => Taken s r) (.of_imp fun _ h => h.2) ?_
  refine leadsTo_of_awake (State.walkLeft conf) h hI (fun _ hs => hs.reachable.reachable)
    hconsumer ?_ ?_ ?_
  · intro s hs ⟨⟨_, hcoming⟩, hnot⟩
    obtain ⟨round, hround⟩ := hcoming.round?.resolve_left hnot
    exact ⟨hs.not_ended, not_asleep_of_round hround⟩
  · intro s t s' hs ⟨⟨hpublished, hcoming⟩, _⟩ hthread
    have hreach := hs.reachable.reachable
    have hkeep := hcoming.thread (ownership_of_reachable hreach) (makings_of_reachable hreach)
      hthread
    refine (Classical.em (Taken s' r)).imp_right fun hnot => ?_
    exact ⟨⟨⟨hpublished.thread hthread, hkeep⟩, hnot⟩, hthread.walkLeft_eq.le⟩
  · intro s s' hs ⟨⟨hpublished, hcoming⟩, _⟩ hcons
    refine (Classical.em (Taken s' r)).imp_right fun hnot => ?_
    obtain ⟨hkeep, hlt⟩ := (hcoming.walk hs.reachable.reachable hpublished hcons).resolve_left hnot
    exact ⟨⟨⟨hpublished.consumer hcons, hkeep⟩, hnot⟩, hlt⟩

/-- A consumer that a producer is signalled to begins a pass that comes to it. -/
theorem leadsTo_sought (hfair : ∀ t, FairTo conf σ t) :
    LeadsTo σ (fun s => Made conf s p ∧ Signalled s p) fun s => Sought s p := by
  refine leadsTo_of_waking (State.untilPass conf) h hI (fun _ hs => hs.reachable.reachable) hfair
    hconsumer (fun _ hs _ => hs.not_ended) ?_ ?_ ?_
  · intro s hs ⟨_, hsignalled⟩ hasleep
    exact (hsignalled.alert (readySound_of_reachable hs.reachable.reachable)).waking hasleep
  · intro s a t s' hs ⟨hmade, hsignalled⟩ hstep hthread
    have hreach := hs.reachable.reachable
    have hown := ownership_of_reachable hreach
    have hkeep := hthread.signalled hown (makings_of_reachable hreach)
      (ticketSound_of_reachable hreach) hsignalled
    exact .inr ⟨⟨made_step hown hstep hmade, hkeep⟩, hthread.untilPass_eq.le⟩
  · intro s s' hs ⟨hmade, hsignalled⟩ hcons
    rcases hcons.untilPass_lt hs hmade hsignalled with hsought | ⟨hkeep, hlt⟩
    · exact .inl hsought
    · exact .inr ⟨⟨hmade.mono hcons.count_le, hkeep⟩, hlt⟩

omit hconsumer in
/-- Who is about to signal for a producer does so. -/
theorem leadsTo_signalled (hfair : FairTo conf σ t) :
    LeadsTo σ (fun s => (s.pc t).signals? = some p) fun s => Signalled s p := by
  have hsignal : ∀ s s' : State, Steady conf s → (s.pc t).signals? = some p →
      ThreadStep conf s t s' → Signalled s' p := by
    intro s s' hs hsignals hthread
    have hreach := hs.reachable.reachable
    exact hthread.announced (ownership_of_reachable hreach) (makings_of_reachable hreach) hsignals
  refine h.leadsTo_of_size (fun _ => 0) hI hfair.thread ?_ ?_ ?_
  · intro s hs hsignals
    exact ⟨.thread t, rfl, signals_ready hsignals⟩
  · intro s a s' hs hsignals _ hstep
    rcases step_cases hstep with ⟨other, hthread⟩ | hcons
    · by_cases hother : other = t
      · subst hother
        exact .inl (hsignal s s' hs hsignals hthread)
      · rw [← hthread.pc_of_ne (Ne.symm hother)] at hsignals
        exact .inr ⟨hsignals, le_rfl⟩
    · rw [← hcons.pc_eq] at hsignals
      exact .inr ⟨hsignals, le_rfl⟩
  · rintro s _ s' hs hsignals rfl hnext
    have hstep : step conf s (.thread t) = some s' := hnext
    cases step_kind hstep with
    | thread other hother _ hthread =>
        obtain rfl := Option.some.inj hother
        exact .inl (hsignal s s' hs hsignals hthread)

/-- A visit ends. -/
theorem leadsTo_left :
    LeadsTo σ (fun s => ∃ stage, s.consumer.visit? = some (p, stage))
      fun s => ¬ ∃ stage, s.consumer.visit? = some (p, stage) := by
  have hround : ∀ s : State, (∃ stage, s.consumer.visit? = some (p, stage)) →
      ∃ round, s.consumer.round? = some round ∧ s.consumer ≠ .pass round .done := by
    rintro s ⟨stage, hvisit⟩
    cases hc : s.consumer with
    | visit round => exact ⟨round, rfl, nofun⟩
    | _ =>
        rw [hc] at hvisit
        contradiction
  refine leadsTo_of_awake (State.walkLeft conf) h hI (fun _ hs => hs.reachable.reachable)
    hconsumer ?_ ?_ ?_
  · intro s hs hvisit
    obtain ⟨round, hround, -⟩ := hround s hvisit
    exact ⟨hs.not_ended, not_asleep_of_round hround⟩
  · intro s t s' hs hvisit hthread
    exact (Classical.em _).symm.imp_right fun hvisit' => ⟨hvisit', hthread.walkLeft_eq.le⟩
  · intro s s' hs hvisit hcons
    have hreach := hs.reachable.reachable
    obtain ⟨round, hround, hnot⟩ := hround s hvisit
    refine (Classical.em _).symm.imp_right fun hvisit' => ⟨hvisit', ?_⟩
    rcases hcons.walk (ownership_of_reachable hreach) (passSound_of_reachable hreach)
      (fits_of_reachable hreach) hround with ⟨hlt, -⟩ | ⟨hc, -⟩
    · exact hlt
    · exact absurd hc hnot

end Behaviour

/-! ## The record is taken -/

/-- The log call that published the record has returned. -/
def Returned (s : State) (r : RecordId) : Prop :=
  Published s r ∧ ∀ t, (s.pc t).pending? ≠ some r

theorem Published.step (h : Published s r) (hstep : Handoff.step conf s a = some s') :
    Published s' r :=
  (step_cases hstep).elim (fun ⟨_, hthread⟩ => h.thread hthread) h.consumer

/-- No other record gets the number of one that was published. -/
theorem not_pending_step (hpublished : Published s r) (h : (s.pc t).pending? ≠ some r)
    (hstep : Handoff.step conf s a = some s') : (s'.pc t).pending? ≠ some r := by
  rcases step_cases hstep with ⟨other, hthread⟩ | hcons
  · by_cases ht : t = other
    · subst ht
      cases hthread.account with
      | keep hpending => rwa [hpending]
      | publish p hpending =>
          rw [hpending]
          rintro ⟨⟩
          exact absurd hpublished (Nat.lt_irrefl _)
      | finish record _ hnone => simp [hnone]
    · rwa [hthread.pc_of_ne ht]
  · rwa [hcons.pc_eq]

/-- Nobody but `t` may still have to return for the record. -/
def Owing (t : ℕ) (s : State) (r : RecordId) : Prop :=
  Published s r ∧ ∀ other, other ≠ t → (s.pc other).pending? ≠ some r

theorem Owing.step (h : Owing t s r) (hstep : Handoff.step conf s a = some s') : Owing t s' r :=
  ⟨h.1.step hstep, fun other hother => not_pending_step h.1 (h.2 other hother) hstep⟩

theorem Returned.step (h : Returned s r) (hstep : Handoff.step conf s a = some s') :
    Returned s' r :=
  ⟨h.1.step hstep, fun t => not_pending_step h.1 (h.2 t) hstep⟩

theorem faced (h : s.consumer.facing p ≠ .away) :
    s.consumer.due p = true ∨ ∃ stage, s.consumer.visit? = some (p, stage) := by
  have hdue : ∀ cursor : Cursor, cursor.facing p ≠ .away → cursor.due p = true := by
    intro cursor hfacing
    by_contra hnot
    exact hfacing (facing_away (by simpa using hnot))
  cases hc : s.consumer with
  | pass round cursor =>
      rw [hc] at h
      exact .inl (hdue cursor h)
  | visit round resume q stage =>
      by_cases hq : q = p
      · subst hq
        exact .inr ⟨stage, rfl⟩
      · rw [hc, facing_other _ _ _ hq] at h
        exact .inl (hdue resume h)
  | _ =>
      rw [hc] at h
      exact absurd rfl h

/-- Nobody is between the publication of a record that was returned and its signal. -/
theorem Returned.seen (hs : (handoff conf).Reachable s) (h : Returned s r) : Taken s r ∨
    Signalled s r.producer ∨ (∃ t, (s.pc t).phase r.producer = .marked) ∨
      s.consumer.due r.producer = true ∨ ∃ stage, s.consumer.visit? = some (r.producer, stage) := by
  by_cases htaken : Taken s r
  · exact .inl htaken
  · refine .inr ?_
    rcases (cellInv_of_reachable hs r.producer).covered r.number (Nat.le_of_not_lt htaken) h.1 with
      ⟨t, hwritten⟩ | hsignal | hmarked | hvisit
    · exact absurd (pending?_of_phase hwritten) (h.2 t)
    · exact .inl hsignal
    · exact .inr (.inl hmarked)
    · refine .inr (.inr (faced ?_))
      rcases hvisit with hvisit | hvisit | hvisit | hvisit <;> exact hvisit.trans_ne nofun

section Behaviour

variable (h : (handoff conf).Behaviour (·.Stays conf) σ) (hI : ∀ k, Steady conf (σ k))
  (hconsumer : (handoff conf).WeaklyFair σ (· = .consumer)) (hfair : ∀ t, FairTo conf σ t)
include h hI hconsumer hfair

/-- The log call that published the record returns. -/
theorem leadsTo_returned : LeadsTo σ (fun s => Published s r) fun s => Returned s r := by
  intro k hpublished
  by_cases hpending : ∃ t, ((σ k).pc t).pending? = some r
  · obtain ⟨t, ht⟩ := hpending
    have howing : Owing t (σ k) r := by
      refine ⟨hpublished, fun other hother hpc => hother ?_⟩
      exact (ledger_of_reachable (hI k).reachable.reachable).unique other t r hpc ht
    have hcall := leadsTo_idle (hI 0).reachable (h.mono fun _ => Action.Stays.known) (hfair t)
      hconsumer
    have hkeep : ∀ k, Owing t (σ k) r → Owing t (σ (k + 1)) r :=
      h.keep (P := fun s => Owing t s r) fun _ _ _ howing hstep => howing.step hstep
    have hdone := hcall.stable (R := fun s => Owing t s r) hkeep
    obtain ⟨j, hkj, hidle, hpub, hnone⟩ := hdone k ⟨(hI k).calm.2 t, howing⟩
    refine ⟨j, hkj, hpub, fun other => ?_⟩
    by_cases hother : other = t
    · rw [hother, hidle]
      exact nofun
    · exact hnone other hother
  · exact ⟨k, le_rfl, hpublished, not_exists.mp hpending⟩

/-- After its call has returned, the consumer takes the record. -/
theorem leadsTo_taken_of_returned : LeadsTo σ (fun s => Returned s r) fun s => Taken s r := by
  have hcoming := leadsTo_taken h hI hconsumer (r := r)
  have hkeep : ∀ k, Returned (σ k) r → Returned (σ (k + 1)) r :=
    h.keep (P := fun s => Returned s r) fun _ _ _ hreturned hstep => hreturned.step hstep
  have hsignal : LeadsTo σ (fun s => Signalled s r.producer ∧ Returned s r)
      fun s => Taken s r := by
    intro k ⟨hsignalled, hreturned⟩
    have hmade := made_of_published (makings_of_reachable (hI k).reachable.reachable) hreturned.1
    have hsought := (leadsTo_sought h hI hconsumer hfair (p := r.producer)).stable
      (R := fun s => Returned s r) hkeep
    obtain ⟨j, hkj, hj, hreturned'⟩ := hsought k ⟨⟨hmade, hsignalled⟩, hreturned⟩
    obtain ⟨i, hji, hi⟩ := hcoming j ⟨hreturned'.1, hj.coming⟩
    exact ⟨i, hkj.trans hji, hi⟩
  have hleft := (leadsTo_left h hI hconsumer (p := r.producer)).stable
    (R := fun s => Returned s r) hkeep
  have haway : LeadsTo σ
      (fun s => (¬ ∃ stage, s.consumer.visit? = some (r.producer, stage)) ∧ Returned s r)
      fun s => Taken s r := by
    intro k ⟨hnot, hreturned⟩
    rcases hreturned.seen (hI k).reachable.reachable with
      htaken | hsignalled | ⟨t, hmarked⟩ | hdue | hvisit
    · exact ⟨k, le_rfl, htaken⟩
    · exact hsignal k ⟨hsignalled, hreturned⟩
    · have hmarks := (leadsTo_signalled h hI (hfair t) (p := r.producer)).stable
        (R := fun s => Returned s r) hkeep
      exact (hmarks.trans hsignal) k ⟨signals?_of_phase hmarked, hreturned⟩
    · exact hcoming k ⟨hreturned.1, .inr (.inl hdue)⟩
    · exact absurd hvisit hnot
  intro k hreturned
  by_cases hvisit : ∃ stage, (σ k).consumer.visit? = some (r.producer, stage)
  · exact (hleft.trans haway) k ⟨hvisit, hreturned⟩
  · exact haway k ⟨hvisit, hreturned⟩

end Behaviour

theorem steady_of_behaviour (hstart : ∃ level, σ 0 = .started conf level)
    (h : (handoff conf).Behaviour (·.Stays conf) σ) (k : ℕ) : Steady conf (σ k) := by
  refine h.invariant ?_ (fun _ _ _ hs ha hstep => hs.step ha hstep) k
  obtain ⟨level, hlevel⟩ := hstart
  rw [hlevel]
  exact ⟨.initial ⟨level, rfl⟩, rfl, fun _ => rfl⟩

/-- Every record that is published is written some day, once to each sink of its route, whether or
not anybody calls `flush`. -/
theorem leadsTo_written (hstart : ∃ level, σ 0 = .started conf level)
    (h : (handoff conf).Behaviour (·.Stays conf) σ) (hfair : ∀ t, FairTo conf σ t)
    (hconsumer : (handoff conf).WeaklyFair σ (· = .consumer)) :
    LeadsTo σ (fun s => Published s r)
      fun s => Taken s r ∧ writesOf r s.out = targetsOf conf s r := by
  have hI := steady_of_behaviour hstart h
  intro k hpublished
  obtain ⟨j, hkj, htaken⟩ := ((leadsTo_returned h hI hconsumer hfair).trans
    (leadsTo_taken_of_returned h hI hconsumer hfair)) k hpublished
  have hwritten := writtenOnce_of_reachable (hI j).reachable.reachable r
  exact ⟨j, hkj, htaken, hwritten.1 htaken⟩

end Unlog.Handoff
