import Unlog.Handoff.Returns

/-! # A shutdown comes to its end

The flushers leave, the last records are published, the drain finds nothing any more and the
consumer ends, while gated log calls and all other calls but raw ones and flushes may go on. -/

namespace Unlog.Handoff

open Library

variable {conf : Sealed} {s s' : State} {a : Action} {t : ℕ}

/-! ## Requests have callers -/

/-- Every request that is not answered has a caller that waits for it. -/
def Attended (s : State) : Prop :=
  ∀ n, s.flushCompleted < n → n ≤ s.flushRequested → ∃ t, Outstanding s t n

theorem ThreadStep.requesting (hstep : ThreadStep conf s t s') :
    s'.flushRequested = s.flushRequested ∨ s'.flushRequested = s.flushRequested + 1 ∧
      ∃ before, s'.pc t = .wake (.flush (s.flushRequested + 1) before) := by
  cases hstep with
  | flushRequest => exact .inr ⟨rfl, _, State.setPc_pc_self _⟩
  | publishBit | publishRetired =>
      obtain ⟨registry, hr⟩ := State.publishReadyBit_eq s _
      rw [hr]
      exact .inl rfl
  | wake =>
      rename_i waker _
      cases waker <;> exact .inl rfl
  | _ => exact .inl rfl

theorem attended_of_reachable (h : (handoff conf).Reachable s) : Attended s := by
  refine h.invariant ?_ fun s a s' hs hattended hstep n hlt hle => ?_
  · rintro _ ⟨level, rfl⟩ n hlt hle
    exact absurd (Nat.lt_of_lt_of_le hlt hle) (Nat.lt_irrefl _)
  · have hkeep : n ≤ s.flushRequested → ∃ t, Outstanding s' t n := by
      intro hold
      have hmono := completed_le hs hstep
      obtain ⟨t, hout⟩ := hattended n (by omega) hold
      exact ⟨t, (hout.step hs hstep).resolve_left (Nat.not_le_of_lt hlt)⟩
    rcases step_cases hstep with ⟨t, hthread⟩ | hcons
    · rcases hthread.requesting with hsame | ⟨hmore, before, hpc⟩
      · exact hkeep (hsame ▸ hle)
      · rcases Nat.lt_or_ge s.flushRequested n with hnew | hold
        · obtain rfl : n = s.flushRequested + 1 := by omega
          exact ⟨t, ⟨before, by rw [hpc]; rfl⟩, hlt⟩
        · exact hkeep hold
    · exact hkeep (hcons.requested_eq ▸ hle)

/-! ## Who may still publish or flush -/

/-- Only finitely many threads are in a call. -/
theorem busy_finite (h : (handoff conf).Reachable s) : {t | s.pc t ≠ .idle}.Finite := by
  refine h.invariant (I := fun s => {t | s.pc t ≠ .idle}.Finite) ?_
    fun s a s' hs hfinite hstep => ?_
  · rintro _ ⟨level, rfl⟩
    simp [State.started]
  · rcases step_cases hstep with ⟨t, hthread⟩ | hcons
    · refine (hfinite.insert t).subset fun other hother => ?_
      by_cases ht : other = t
      · exact .inl ht
      · rw [Set.mem_ofPred_eq, hthread.pc_of_ne ht] at hother
        exact .inr hother
    · exact hcons.pc_eq ▸ hfinite

/-- A thread that is past the gate of a log call and has not published, or is in a flush. -/
def ThreadPc.engaged : ThreadPc → Bool
  | .obtain _ | .assertOwner _ _ | .claimOwner _ _ | .acquire _ (.log _) | .produce _ _ => true
  | .flushState _ | .flushAdmit _ => true
  | pc => pc.flushing

theorem engaged_of_flushing {pc : ThreadPc} (h : pc.flushing = true) : pc.engaged = true := by
  cases pc with
  | wake | flushLifecycle | flushRefuse | flushRequest | flushWait | flushLeave => exact h
  | _ => contradiction

theorem final?_of_engaged {pc : ThreadPc} (h : pc.engaged = true) : pc.final? = none := by
  cases pc with
  | wake waker => cases waker <;> first | rfl | contradiction
  | _ => first | rfl | contradiction

/-- Neither a flush nor a raw call of `log_message` begins; the gate is closed to the others. -/
def Action.Winding (conf : Sealed) : Action → Prop
  | .call _ .flush => False
  | .call _ (.logUnchecked _) => False
  | a => a.Known conf

theorem Action.Winding.known (h : a.Winding conf) : a.Known conf := by
  cases a with
  | call t call => cases call <;> first | exact h | exact h.elim
  | _ => exact h

/-- With the gate closed nobody gets engaged by going on. -/
theorem Next.engaged {pc next : ThreadPc} (hnext : Next conf s t pc next) (hpc : pc ≠ .idle)
    (hoff : ∀ channel, s.level channel = .off) (h : next.engaged = true) : pc.engaged = true := by
  cases hnext with
  | callLog | callUnchecked | callRelease | callNothing | callPrewarm | callFlush | callRouteLevel
  | callGlobalLevel | callDestroy => exact absurd rfl hpc
  | move hmove =>
      cases hmove with
      | gate hlevel =>
          rw [hoff] at hlevel
          contradiction
      | prewarmAcquire => contradiction
      | obtainTls | obtainNone | obtainAssert | obtainSingle | assertFirst | assertOwned
      | flushPresent | flushRunning | flushStopped | flushWait => rfl
      | _ => contradiction
  | claimOwner | acquireLog | flushAdmit | flushRequest | wakeFlush => rfl
  | _ => contradiction

theorem engaged_step (hoff : ∀ channel, s.level channel = .off) (ha : a.Winding conf)
    (hstep : step conf s a = some s') (h : (s'.pc t).engaged = true) :
    (s.pc t).engaged = true := by
  by_cases ht : a.thread? = some t
  · cases step_kind hstep with
    | call other call hidle =>
        obtain rfl := Option.some.inj ht
        rw [State.setPc_pc_self] at h
        cases call with
        | flush | logUnchecked => exact ha.elim
        | release pages =>
            rw [Call.entry] at h
            split at h <;> contradiction
        | _ => contradiction
    | thread other hother hbusy hthread =>
        obtain rfl := Option.some.inj (ht.symm.trans hother)
        exact hthread.next.engaged hbusy hoff h
    | consumer => contradiction
  · rwa [step_pc_of_ne hstep ht] at h

/-- A shutdown has begun and nobody publishes or flushes any more. -/
structure Quiet (conf : Sealed) (s : State) : Prop where
  reachable : (handoff conf).ReachableWhere (fun _ a => a.Known conf) s
  ending : s.lifecycle ≠ .running
  disengaged : ∀ t, (s.pc t).engaged = false

theorem ending_step (hs : (handoff conf).Reachable s) (h : s.lifecycle ≠ .running)
    (hstep : step conf s a = some s') : s'.lifecycle ≠ .running := by
  rcases step_cases hstep with ⟨t, hthread⟩ | hcons
  · exact (destroySound_of_reachable hs).ended hthread h
  · exact hcons.control_eq.1 ▸ h

theorem Quiet.step (h : Quiet conf s) (ha : a.Winding conf)
    (hstep : Handoff.step conf s a = some s') : Quiet conf s' where
  reachable := .step h.reachable ha.known hstep
  ending := ending_step h.reachable.reachable h.ending hstep
  disengaged t := by
    have hdestroy := destroySound_of_reachable h.reachable.reachable
    by_contra hengaged
    have hbefore := engaged_step (hdestroy.silent h.ending) ha hstep (by simpa using hengaged)
    exact absurd hbefore (by simp [h.disengaged t])

theorem Quiet.flushers (h : Quiet conf s) : s.activeFlushers = 0 := by
  obtain ⟨inside, hinside, hcard⟩ :=
    (flushersSound_of_reachable h.reachable.reachable).counted
  rw [← hcard, Finset.card_eq_zero, Finset.eq_empty_iff_forall_notMem]
  intro t ht
  have hengaged := engaged_of_flushing ((hinside t).mp ht)
  simp [h.disengaged t] at hengaged

/-- Every request is answered. -/
theorem Quiet.answered (h : Quiet conf s) : s.flushRequested = s.flushCompleted := by
  have hreach := h.reachable.reachable
  have hle := (flushSound_of_reachable hreach).bounded
  by_contra hne
  obtain ⟨t, ⟨before, htarget⟩, -⟩ :=
    attended_of_reachable hreach s.flushRequested (by omega) le_rfl
  have hengaged := engaged_of_flushing (flushing_of_letIn (letIn_of_target? htarget))
  simp [h.disengaged t] at hengaged

/-- Nothing is published any more. -/
theorem Quiet.publishes (h : Quiet conf s) (a : Action) : publishes conf s a = none := by
  cases a with
  | produce t outcome =>
      simp only [Handoff.publishes]
      split
      case h_1 channel p hpc =>
        have hengaged := h.disengaged t
        rw [hpc] at hengaged
        contradiction
      case h_2 => rfl
  | _ => rfl

variable {σ : ℕ → State}

/-- After a shutdown has begun, it gets quiet some day. -/
theorem leadsTo_quiet (hstart : (handoff conf).ReachableWhere (fun _ a => a.Known conf) (σ 0))
    (h : (handoff conf).Behaviour (·.Winding conf) σ) (hfair : ∀ t, FairTo conf σ t)
    (hconsumer : (handoff conf).WeaklyFair σ (· = .consumer)) :
    LeadsTo σ (fun s => s.lifecycle ≠ .running) (Quiet conf) := by
  intro k hne
  have hknown : (handoff conf).Behaviour (·.Known conf) σ := h.mono fun _ => Action.Winding.known
  have hI := hknown.reachableWhere hstart
  have hending : ∀ i, (σ (k + i)).lifecycle ≠ .running := by
    intro i
    induction i with
    | zero => exact hne
    | succ i ih =>
        rcases h (k + i) with heq | ⟨a, -, hnext⟩
        · exact (congrArg State.lifecycle heq).trans_ne ih
        · exact ending_step (hI _).reachable ih hnext
  have hdone : ∀ t, LeadsTo σ (fun s => (s.pc t).engaged = true)
      fun s => ¬ (s.pc t).engaged = true := by
    intro t i hengaged
    obtain ⟨j, hij, hidle⟩ := leadsTo_idle hstart hknown (hfair t) hconsumer i
      (final?_of_engaged hengaged)
    exact ⟨j, hij, by simp [hidle, ThreadPc.engaged, ThreadPc.flushing]⟩
  have hfinite : ∀ i, {t | ((σ (k + i)).pc t).engaged = true}.Finite := by
    intro i
    refine (busy_finite (hI (k + i)).reachable).subset fun t hengaged hidle => ?_
    rw [Set.mem_ofPred_eq, hidle] at hengaged
    contradiction
  have hkeep : ∀ i t, ((σ (k + (i + 1))).pc t).engaged = true →
      ((σ (k + i)).pc t).engaged = true := by
    intro i t hengaged
    have hoff := (destroySound_of_reachable (hI (k + i)).reachable).silent (hending i)
    rcases h (k + i) with heq | ⟨a, ha, hnext⟩
    · rwa [← Nat.add_assoc, heq] at hengaged
    · exact engaged_step hoff ha hnext hengaged
  obtain ⟨j, -, hquiet⟩ := LeadsTo.all_done (σ := fun i => σ (k + i)) hfinite hkeep
    (fun t => (hdone t).shift k) 0
  exact ⟨k + j, Nat.le_add_right k j, hI _, hending j, fun t => by simpa using hquiet t⟩

/-! ## The stop is requested -/

/-- Between the store of `stop_requested` and the end of the consumer. -/
def ThreadPc.joining : ThreadPc → Bool
  | .wake (.stop _) | .join _ => true
  | _ => false

theorem destroying_of_joining {pc : ThreadPc} (h : pc.joining = true) : pc.destroying = true := by
  cases pc with
  | wake waker => cases waker <;> first | rfl | contradiction
  | join => rfl
  | _ => contradiction

theorem Next.joining {pc next : ThreadPc} (hnext : Next conf s t pc next)
    (h : next.joining = true) : pc.joining = true ∨ ∃ final, pc = .requestStop final := by
  cases hnext with
  | wakeStop => exact .inl rfl
  | requestStop => exact .inr ⟨_, rfl⟩
  | move hmove => cases hmove <;> contradiction
  | _ => contradiction

theorem ThreadStep.stopRequested_eq (hstep : ThreadStep conf s t s') :
    s'.stopRequested = true ∨
      s'.stopRequested = s.stopRequested ∧ (∀ final, s.pc t ≠ .requestStop final) ∨
      ∃ final, s.pc t = .joined final := by
  cases hstep with
  | requestStop => exact .inl rfl
  | joined hpc => exact .inr (.inr ⟨_, hpc⟩)
  | move hmove =>
      refine .inr (.inl ⟨rfl, fun final hpc => ?_⟩)
      rw [hpc] at hmove
      cases hmove
  | publishBit hpc | publishRetired hpc =>
      obtain ⟨registry, hr⟩ := State.publishReadyBit_eq s _
      rw [hr]
      exact .inr (.inl ⟨rfl, by simp [hpc]⟩)
  | wake hpc =>
      rename_i waker
      cases waker <;> exact .inr (.inl ⟨rfl, by simp [hpc]⟩)
  | flushLeft hpc =>
      refine .inr (.inl ⟨rfl, ?_⟩)
      rcases hpc with hpc | ⟨target, before, hpc⟩ <;> simp [hpc]
  | setLevel level hpc =>
      refine .inr (.inl ⟨rfl, ?_⟩)
      rcases hpc with ⟨channel, value, hpc⟩ | ⟨value, hpc⟩ <;> simp [hpc]
  | call call hpc | claimOwner hpc | recycle hpc | create hpc | publish _ hpc | countDropped hpc
  | countEmitted hpc | countTruncated hpc | markWon hpc | markLost hpc | retire hpc
  | retireLost hpc | flushAdmit hpc | flushRequest hpc | destroy hpc | resetSinks hpc
  | finishDestroy _ hpc => exact .inr (.inl ⟨rfl, by simp [hpc]⟩)

theorem stopRequested_of_joining (h : (handoff conf).Reachable s)
    (hjoining : (s.pc t).joining = true) : s.stopRequested = true := by
  refine h.invariant (I := fun s => ∀ t, (s.pc t).joining = true → s.stopRequested = true) ?_
    (fun s a s' hs hstop hstep t hjoining => ?_) t hjoining
  · rintro _ ⟨level, rfl⟩
    exact nofun
  · have halone := (destroySound_of_reachable hs).alone
    rcases step_cases hstep with ⟨other, hthread⟩ | hcons
    · by_cases ht : t = other
      · subst ht
        rcases hthread.stopRequested_eq with htrue | ⟨hsame, hnot⟩ | ⟨final, hpc⟩
        · exact htrue
        · rcases hthread.next.joining hjoining with hbefore | ⟨final, hpc⟩
          · exact hsame.trans (hstop t hbefore)
          · exact absurd hpc (hnot final)
        · have hnext := hthread.next
          rw [hpc] at hnext
          rcases hnext.joining hjoining with hbefore | ⟨_, hbefore⟩ <;> contradiction
      · rw [hthread.pc_of_ne ht] at hjoining
        rcases hthread.stopRequested_eq with htrue | ⟨hsame, -⟩ | ⟨final, hpc⟩
        · exact htrue
        · exact hsame.trans (hstop t hjoining)
        · exact absurd (halone t other (destroying_of_joining hjoining) (by rw [hpc]; rfl)) ht
    · rw [hcons.pc_eq] at hjoining
      exact hcons.control_eq.2.2.1.trans (hstop t hjoining)

/-! ## The consumer ends -/

/-- The pass that is under way finds nothing it has not seen. -/
def Clean (s : State) : Prop := ∃ reads, s.Explained reads false

/-- From a pass to the end, at most, if the pass is clean. -/
def Round.rest (conf : Sealed) : Round → ℕ
  | .ready _ _ => conf.passSteps + 3
  | .flush _ => 2 * conf.passSteps + 6
  | .final _ => 1

def State.untilClean (conf : Sealed) (s : State) : ℕ :=
  match s.consumer with
  | .sampleTicket => 2 * conf.passSteps + 4
  | .pass round _ | .visit round _ _ _ => s.walkLeft conf + round.rest conf
  | .readRequested _ _ => conf.passSteps + 3
  | .flushSinks _ => 2 * conf.passSteps + 6
  | .completeFlush _ | .wait _ => 2 * conf.passSteps + 5
  | .readStop _ _ => conf.passSteps + 2
  | .finalFlush => 1
  | .ended => 0

open Classical in
/-- The accesses until the consumer ends, at most: a pass of the last drain that is not clean is
made again. -/
noncomputable def State.untilEnded (conf : Sealed) (s : State) : ℕ :=
  s.untilClean conf + if s.consumer.idling = true ∧ ¬ Clean s then conf.passSteps + 1 else 0

theorem untilClean_of_round {round : Round} (h : s.consumer.round? = some round) :
    s.untilClean conf = s.walkLeft conf + round.rest conf := by
  cases hc : s.consumer with
  | pass | visit =>
      rw [hc] at h
      obtain rfl := Option.some.inj h
      simp only [State.untilClean, hc]
  | _ =>
      rw [hc] at h
      contradiction

theorem rest_notDrained (round : Round) : round.notDrained.rest conf = round.rest conf := by
  cases round <;> rfl

theorem idling_iff {round : Round} (h : s.consumer.round? = some round) :
    s.consumer.idling = round.isFinal := by
  cases hc : s.consumer with
  | pass | visit =>
      rw [hc] at h
      obtain rfl := Option.some.inj h
      rfl
  | _ =>
      rw [hc] at h
      contradiction

theorem clean_first {round : Round} (hc : s.consumer = .pass round Cursor.first)
    (hround : round ≠ .final false) : Clean s :=
  ⟨[], by rw [State.Explained, hc]; exact fun h => absurd h hround⟩

/-- No thread makes a clean pass unclean. -/
theorem Clean.thread (h : Clean s) (hquiet : Quiet conf s) (hstep : step conf s a = some s')
    (hthread : ThreadStep conf s t s') : Clean s' := by
  obtain ⟨reads, hexplained⟩ := h
  have hnext := hexplained.thread hstep hthread
  rw [hquiet.publishes a] at hnext
  exact ⟨reads, hnext⟩

theorem Clean.consumer (h : Clean s) (hs : (handoff conf).Reachable s)
    (hidling : s.consumer.idling = true) (hstep : ConsumerStep conf s s') : Clean s' := by
  obtain ⟨reads, hexplained⟩ := h
  exact ⟨_, hexplained.consumer (fun p => (cellInv_of_reachable hs p).ordered) hidling hstep⟩

theorem ThreadStep.untilEnded_le (hquiet : Quiet conf s) (hstep : step conf s a = some s')
    (hthread : ThreadStep conf s t s') : s'.untilEnded conf ≤ s.untilEnded conf := by
  have hsame : s'.untilClean conf = s.untilClean conf := by
    rw [State.untilClean, State.untilClean, hthread.walkLeft_eq, hthread.consumer_eq]
  rw [State.untilEnded, State.untilEnded, hsame, hthread.consumer_eq]
  refine Nat.add_le_add_left ?_ _
  by_cases hclean : Clean s
  · simp [hclean.thread hquiet hstep hthread]
  · simp only [hclean, not_false_eq_true, and_true]
    split <;> split <;> simp_all

theorem untilEnded_of_clean (h : s.consumer.idling = false ∨ Clean s) :
    s.untilEnded conf = s.untilClean conf := by
  rw [State.untilEnded, if_neg, Nat.add_zero]
  rintro ⟨hidling, hnot⟩
  rcases h with h | h
  · rw [h] at hidling
    contradiction
  · exact hnot h

theorem untilEnded_lt_of_clean (h : s'.consumer.idling = false ∨ Clean s')
    (hlt : s'.untilClean conf < s.untilClean conf) :
    s'.untilEnded conf < s.untilEnded conf := by
  rw [untilEnded_of_clean h]
  exact Nat.lt_of_lt_of_le hlt (Nat.le_add_right _ _)

/-- A pass that goes on gets no longer by it. -/
theorem ConsumerStep.untilEnded_walk (hs : (handoff conf).Reachable s)
    (hstep : ConsumerStep conf s s') (hlt : s'.untilClean conf < s.untilClean conf)
    (hidling : s'.consumer.idling = s.consumer.idling) :
    s'.untilEnded conf < s.untilEnded conf := by
  rw [State.untilEnded, State.untilEnded, hidling]
  refine Nat.add_lt_add_of_lt_of_le hlt ?_
  split
  case isTrue hdirty =>
    obtain ⟨hi, hnot⟩ := hdirty
    rw [if_pos ⟨hi, fun hclean => hnot (hclean.consumer hs hi hstep)⟩]
  case isFalse => exact Nat.zero_le _

/-- Each access of the consumer brings its end nearer. -/
theorem ConsumerStep.untilEnded_lt (hquiet : Quiet conf s) (hstop : s.stopRequested = true)
    (hstep : ConsumerStep conf s s') : s'.untilEnded conf < s.untilEnded conf := by
  have hs := hquiet.reachable.reachable
  cases hround : s.consumer.round? with
  | some round =>
      have hsize : s.untilClean conf = _ := untilClean_of_round hround
      rcases hstep.walk (ownership_of_reachable hs) (passSound_of_reachable hs)
        (fits_of_reachable hs) hround with ⟨hlt, hround'⟩ | ⟨hc, hfinish⟩
      · refine hstep.untilEnded_walk hs ?_ ?_
        · rcases hround' with hround' | hround'
          · rw [hsize, untilClean_of_round hround']
            omega
          · rw [hsize, untilClean_of_round hround', rest_notDrained]
            omega
        · rw [idling_iff hround]
          rcases hround' with hround' | hround' <;> rw [idling_iff hround']
          cases round <;> rfl
      · have hlast : s.walkLeft conf = 1 := by
          simp only [State.walkLeft, hc]
          cases round <;> rfl
        rw [hlast] at hsize
        cases round with
        | ready | flush =>
            refine untilEnded_lt_of_clean (.inl (by rw [hfinish]; rfl)) ?_
            rw [hsize, State.untilClean, hfinish]
            simp only [Round.finish, Round.rest]
            omega
        | final allDrained =>
            cases allDrained with
            | true =>
                refine untilEnded_lt_of_clean (.inl (by rw [hfinish]; rfl)) ?_
                rw [hsize, State.untilClean, hfinish]
                exact Nat.one_lt_two
            | false =>
                have hdirty : ¬ Clean s := by
                  rintro ⟨reads, hexplained⟩
                  exact absurd (hexplained.pass hc rfl) Bool.false_ne_true
                have hidling : s.consumer.idling = true := by rw [hc]; rfl
                have hfirst : (Round.final true).leftAt conf Cursor.first = conf.passSteps := rfl
                rw [untilEnded_of_clean (.inr (clean_first hfinish (by simp))), State.untilEnded,
                  if_pos ⟨hidling, hdirty⟩, hsize, State.untilClean, hfinish]
                simp only [Round.finish, State.walkLeft, hfinish, Round.rest, hfirst]
                omega
  | none =>
      cases hstep with
      | startFlush hc hrequested => exact absurd hquiet.answered hrequested
      | sleep hc hnot | again hc hnot => exact absurd (hnot.symm.trans hstop) Bool.false_ne_true
      | stop hc =>
          refine untilEnded_lt_of_clean (.inr (clean_first rfl (by simp))) ?_
          have hfirst : (Round.final true).leftAt conf Cursor.first = conf.passSteps := rfl
          simp only [State.untilClean, hc, State.walkLeft, Round.rest]
          omega
      | sampleTicket hc =>
          refine untilEnded_lt_of_clean (.inl rfl) ?_
          have hfirst : (Round.ready s.wakeSeq true).leftAt conf Cursor.first =
            conf.passSteps := rfl
          simp only [State.untilClean, hc, State.walkLeft, Round.rest]
          omega
      | noFlush hc | flushSinks hc | completeFlush hc | awake hc | finalFlush hc =>
          refine untilEnded_lt_of_clean (.inl rfl) ?_
          simp only [State.untilClean, hc]
          omega
      | consume hc | singleVisit hc | singleSkip hc | countFlush hc | countWords hc | takeWord hc
      | wordsDone hc | bitsDone hc | bitVisit hc | slotVisit hc | slotsDone hc | readTail hc
      | consumed hc | firstEmpty hc | firstFilled hc | clearEnqueued hc | secondEmpty hc
      | secondFilled hc | remarkWon hc | remarkLost hc | repost hc | isRetired hc | markFree hc
      | notRetired hc | pushFree hc | passDone hc =>
          rw [hc] at hround
          contradiction

/-- A thread that joins the consumer finds it ended. -/
theorem leadsTo_ended {final : RuntimeLifecycle}
    (h : (handoff conf).Behaviour (·.Winding conf) σ) (hI : ∀ k, Quiet conf (σ k))
    (hfair : ∀ t, FairTo conf σ t) (hconsumer : (handoff conf).WeaklyFair σ (· = .consumer)) :
    LeadsTo σ (fun s => s.pc t = .join final)
      fun s => s.pc t = .join final ∧ s.consumer = .ended := by
  refine .cases (fun s => s.consumer = .ended) (.of_imp fun _ => id) ?_
  have hstop : ∀ s, Quiet conf s → s.pc t = .join final → s.stopRequested = true :=
    fun s hs hpc => stopRequested_of_joining hs.reachable.reachable (t := t) (by rw [hpc]; rfl)
  refine leadsTo_of_waking (State.untilEnded conf) h hI (fun _ hs => hs.reachable.reachable) hfair
    hconsumer (fun _ _ h => h.2) ?_ ?_ ?_
  · intro s hs ⟨hpc, _⟩ ⟨seq, hc, hseq⟩
    have hsound := requestsSound_of_reachable hs.reachable.reachable
    refine (hsound.stop seq hc (hstop s hs hpc)).resolve_left ?_
    omega
  · intro s a other s' hs ⟨hpc, hnot⟩ hstep hthread
    have hconsumer := hthread.consumer_eq
    refine .inr ⟨⟨?_, hconsumer ▸ hnot⟩, hthread.untilEnded_le hs hstep⟩
    by_cases hother : t = other
    · subst hother
      have hnext := hthread.next
      rw [hpc] at hnext
      generalize s'.pc t = pc' at hnext
      cases hnext with
      | move hmove =>
          cases hmove with
          | join hended => exact absurd hended hnot
    · rw [hthread.pc_of_ne hother, hpc]
  · intro s s' hs ⟨hpc, _⟩ hcons
    have hpc' := (congrFun hcons.pc_eq t).trans hpc
    by_cases hended : s'.consumer = .ended
    · exact .inl ⟨hpc', hended⟩
    · exact .inr ⟨⟨hpc', hended⟩, hcons.untilEnded_lt hs (hstop s hs hpc)⟩

/-! ## The shutdown returns -/

/-- The accesses a shutdown has left. -/
def ThreadPc.shutSteps : ThreadPc → ℕ
  | .awaitFlushers _ => 7
  | .requestStop _ => 6
  | .wake (.stop _) => 5
  | .join _ => 4
  | .joined _ => 3
  | .resetSinks _ => 2
  | .finishDestroy _ => 1
  | _ => 0

/-- The thread is in the shutdown that stops the consumer. -/
def Ending (t : ℕ) (final : RuntimeLifecycle) (s : State) : Prop :=
  (s.pc t).destroying = true ∧ (s.pc t).final? = some final

theorem Next.shutSteps_lt {pc next : ThreadPc} (hnext : Next conf s t pc next)
    (h : pc.destroying = true) : (∃ final, pc = .finishDestroy final) ∨
      next.destroying = true ∧ next.final? = pc.final? ∧ next.shutSteps < pc.shutSteps := by
  cases hnext with
  | finishDestroy => exact .inl ⟨_, rfl⟩
  | move hmove =>
      cases hmove with
      | awaitFlushers | join => exact .inr ⟨rfl, rfl, by simp [ThreadPc.shutSteps]⟩
      | _ => contradiction
  | requestStop | wakeStop | joined | resetSinks =>
      exact .inr ⟨rfl, rfl, by simp [ThreadPc.shutSteps]⟩
  | _ => contradiction

theorem ThreadStep.finished {final : RuntimeLifecycle} (hstep : ThreadStep conf s t s')
    (hpc : s.pc t = .finishDestroy final) :
    s'.pc t = .idle ∧ s'.lifecycle = final ∧ s'.consumer = s.consumer := by
  cases hstep with
  | finishDestroy present hfinish =>
      obtain rfl := ThreadPc.finishDestroy.inj (hpc.symm.trans hfinish)
      exact ⟨State.setPc_pc_self _, rfl, rfl⟩
  | move hmove =>
      rw [hpc] at hmove
      cases hmove
  | flushLeft hleft | setLevel _ hleft => simp [hpc] at hleft
  | _ => simp_all

/-- The shutdown has returned, and no consumer is left. -/
def Ended (t : ℕ) (final : RuntimeLifecycle) (s : State) : Prop :=
  s.pc t = .idle ∧ s.lifecycle = final ∧ s.consumer = .ended

variable {final : RuntimeLifecycle}

theorem ThreadStep.ending (hs : (handoff conf).Reachable s) (hstep : ThreadStep conf s t s')
    (h : Ending t final s) :
    Ended t final s' ∨ Ending t final s' ∧ (s'.pc t).shutSteps < (s.pc t).shutSteps := by
  obtain ⟨hdestroying, hfinal⟩ := h
  rcases hstep.next.shutSteps_lt hdestroying with ⟨other, hpc⟩ | ⟨hkeep, hsame, hlt⟩
  · rw [hpc] at hfinal
    obtain rfl := Option.some.inj hfinal
    have hended := (destroySound_of_reachable hs).halted t (by rw [hpc]; rfl)
    obtain ⟨hidle, hlifecycle, hconsumer⟩ := hstep.finished hpc
    exact .inl ⟨hidle, hlifecycle, hconsumer.trans hended⟩
  · exact .inr ⟨⟨hkeep, hsame.trans hfinal⟩, hlt⟩

theorem ending_or_ended (hs : (handoff conf).Reachable s) (h : Ending t final s)
    (hstep : step conf s a = some s') : Ended t final s' ∨ Ending t final s' := by
  by_cases ht : a.thread? = some t
  · cases step_kind hstep with
    | call other call hidle =>
        obtain rfl := Option.some.inj ht
        rw [Ending, hidle] at h
        exact absurd h.1 nofun
    | thread other hother _ hthread =>
        obtain rfl := Option.some.inj (ht.symm.trans hother)
        exact (hthread.ending hs h).imp_right And.left
    | consumer => contradiction
  · exact .inr (by rwa [Ending, step_pc_of_ne hstep ht])

/-- A thread in a shutdown waits only for the flushers and for the consumer. -/
theorem Quiet.shutdown_ready (h : Quiet conf s) (hending : Ending t final s)
    (hjoin : s.pc t = .join final → s.consumer = .ended) :
    (Handoff.step conf s (.thread t)).isSome = true := by
  obtain ⟨hdestroying, hfinal⟩ := hending
  cases hpc : s.pc t with
  | wake waker =>
      simp only [Handoff.step, threadStep, hpc]
      rfl
  | awaitFlushers | requestStop | joined | resetSinks | finishDestroy =>
      simp [Handoff.step, threadStep, hpc, h.flushers]
  | join other =>
      rw [hpc] at hfinal
      obtain rfl := Option.some.inj hfinal
      simp [Handoff.step, threadStep, hpc, hjoin hpc]
  | _ =>
      rw [hpc] at hdestroying
      contradiction

/-- The thread goes on where it does not wait for the consumer. -/
theorem leadsTo_shutSteps {pc : ThreadPc} (h : (handoff conf).Behaviour (·.Winding conf) σ)
    (hI : ∀ k, Quiet conf (σ k)) (hfair : FairTo conf σ t) :
    LeadsTo σ
      (fun s => s.pc t = pc ∧ Ending t final s ∧ (pc = .join final → s.consumer = .ended))
      fun s => Ended t final s ∨ Ending t final s ∧ (s.pc t).shutSteps < pc.shutSteps := by
  refine h.leadsTo_of_size (fun _ => 0) hI hfair.thread ?_ ?_ ?_
  · rintro s hs ⟨rfl, hending, hjoin⟩
    exact ⟨_, rfl, hs.shutdown_ready hending hjoin⟩
  · rintro s a s' hs ⟨rfl, hending, hjoin⟩ _ hstep
    have hreach := hs.reachable.reachable
    by_cases ht : a.thread? = some t
    · cases step_kind hstep with
      | call other call hidle =>
          obtain rfl := Option.some.inj ht
          rw [Ending, hidle] at hending
          exact absurd hending.1 nofun
      | thread other hother _ hthread =>
          obtain rfl := Option.some.inj (ht.symm.trans hother)
          exact .inl (hthread.ending hreach hending)
      | consumer => contradiction
    · have hpc := step_pc_of_ne hstep ht
      refine .inr ⟨⟨hpc, by rwa [Ending, hpc], fun hc => ?_⟩, le_rfl⟩
      rcases step_cases hstep with ⟨other, hthread⟩ | hcons
      · exact hthread.consumer_eq.trans (hjoin hc)
      · exact absurd (hjoin hc) hcons.not_ended
  · rintro s _ s' hs ⟨rfl, hending, hjoin⟩ rfl hnext
    have hstep : step conf s (.thread t) = some s' := hnext
    cases step_kind hstep with
    | thread other hother _ hthread =>
        obtain rfl := Option.some.inj hother
        exact .inl (hthread.ending hs.reachable.reachable hending)

/-- While it is quiet, a shutdown returns. -/
theorem Quiet.leadsTo_ended (hstart : Quiet conf (σ 0))
    (h : (handoff conf).Behaviour (·.Winding conf) σ) (hfair : ∀ t, FairTo conf σ t)
    (hconsumer : (handoff conf).WeaklyFair σ (· = .consumer)) :
    LeadsTo σ (Ending t final) (Ended t final) := by
  have hI : ∀ k, Quiet conf (σ k) := h.invariant hstart fun _ _ _ hs ha hstep => hs.step ha hstep
  refine LeadsTo.of_size (fun s => (s.pc t).shutSteps) fun n k ⟨hending, hn⟩ => ?_
  obtain ⟨pc, hpc⟩ : ∃ pc, (σ k).pc t = pc := ⟨_, rfl⟩
  rw [hpc] at hn
  subst hn
  have hturn : LeadsTo σ
      (fun s => s.pc t = pc ∧ Ending t final s ∧ (pc = .join final → s.consumer = .ended))
      fun s => Ended t final s ∨ Ending t final s ∧ (s.pc t).shutSteps < pc.shutSteps :=
    leadsTo_shutSteps h hI (hfair t)
  by_cases hjoin : pc = .join final
  · obtain ⟨j, hkj, hpc', hended⟩ :=
      Handoff.leadsTo_ended h hI hfair hconsumer k (hpc.trans hjoin)
    have hending' : Ending t final (σ j) := by
      rw [Ending, hpc']
      exact ⟨rfl, rfl⟩
    obtain ⟨i, hji, hi⟩ := hturn j ⟨hpc'.trans hjoin.symm, hending', fun _ => hended⟩
    exact ⟨i, hkj.trans hji, hi⟩
  · exact hturn k ⟨hpc, hending, fun hc => absurd hc hjoin⟩

/-- A shutdown returns and leaves no consumer, once no flush and no raw log call begins any more;
gated log calls may go on for ever. -/
theorem leadsTo_shutDown (hstart : (handoff conf).ReachableWhere (fun _ a => a.Known conf) (σ 0))
    (h : (handoff conf).Behaviour (·.Winding conf) σ) (hfair : ∀ t, FairTo conf σ t)
    (hconsumer : (handoff conf).WeaklyFair σ (· = .consumer)) :
    LeadsTo σ (Ending t final) (Ended t final) := by
  intro k hending
  have hI := (h.mono fun _ => Action.Winding.known).reachableWhere hstart
  have hne : (σ k).lifecycle ≠ .running := by
    rw [(destroySound_of_reachable (hI k).reachable).destroying t hending.1]
    decide
  obtain ⟨j, hkj, hquiet⟩ := leadsTo_quiet hstart h hfair hconsumer k hne
  have hkeep : ∀ i, Ending t final (σ i) →
      Ended t final (σ (i + 1)) ∨ Ending t final (σ (i + 1)) := by
    intro i hi
    rcases h i with heq | ⟨a, -, hnext⟩
    · exact .inr (heq.symm ▸ hi)
    · exact ending_or_ended (hI i).reachable hi hnext
  rcases LeadsTo.keeps_unless hkeep hkj hending with hj | hdone
  · obtain ⟨i, -, hi⟩ := Quiet.leadsTo_ended hquiet (h.shift j) (fun t => (hfair t).shift j)
      (hconsumer.shift j) 0 hj
    exact ⟨j + i, hkj.trans (Nat.le_add_right j i), hi⟩
  · exact hdone

end Unlog.Handoff
