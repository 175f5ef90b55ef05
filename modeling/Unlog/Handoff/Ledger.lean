import Unlog.Handoff.Coverage

/-! # Log calls that have returned

The records of the calls that have returned, of those still running, and what a flush and the
shutdown remember of them. -/

namespace Unlog.Handoff

variable {conf : Sealed} {s s' : State} {t : ℕ} {r : RecordId}

/-- The record a log call has published and not yet returned for. -/
def ThreadPc.pending? : ThreadPc → Option RecordId
  | .countEmitted record _ => some record
  | .countTruncated record => some record
  | .markEnqueued record => some record
  | .publishBit record => some record
  | .wake (.note record) => some record
  | _ => none

/-- The records whose log call had returned when the flush was called. -/
def ThreadPc.before? : ThreadPc → Option (List RecordId)
  | .flushState before => some before
  | .flushAdmit before => some before
  | .flushLifecycle before => some before
  | .flushRequest before => some before
  | .wake (.flush _ before) => some before
  | .flushWait _ before => some before
  | .flushLeave _ before => some before
  | _ => none

structure Ledger (s : State) : Prop where
  returned : ∀ r ∈ s.returned, Published s r
  pending : ∀ t r, (s.pc t).pending? = some r → Published s r ∧ r ∉ s.returned
  unique : ∀ t t' r, (s.pc t).pending? = some r → (s.pc t').pending? = some r → t = t'
  accepted : ∀ r ∈ s.accepted, r ∈ s.returned
  before : ∀ t before, (s.pc t).before? = some before → ∀ r ∈ before, r ∈ s.returned

/-! ## Steps of a thread -/

/-- A thread publishes a record, returns for one, or leaves the calls as they are. -/
inductive ThreadStep.Account (s s' : State) (t : ℕ) : Prop
  | keep (hpending : (s'.pc t).pending? = (s.pc t).pending?) (hreturned : s'.returned = s.returned)
  | publish (p : ProducerId) (hpending : (s'.pc t).pending? = some ⟨p, (s.producer p).queue.tail⟩)
      (hreturned : s'.returned = s.returned) (hnew : Published s' ⟨p, (s.producer p).queue.tail⟩)
  | finish (r : RecordId) (hpending : (s.pc t).pending? = some r)
      (hnone : (s'.pc t).pending? = none) (hreturned : s'.returned = r :: s.returned)

theorem pending?_move {pc next : ThreadPc} (hmove : Move conf s t pc next) :
    pc.pending? = none ∧ next.pending? = none := by
  cases hmove <;> exact ⟨rfl, rfl⟩

theorem pending?_purpose_next (purpose : Purpose) (pages : Pages) (index : ℕ) :
    (purpose.next pages index).pending? = none := by
  cases purpose <;> cases pages <;> rfl

theorem ThreadStep.account (hstep : ThreadStep conf s t s') : ThreadStep.Account s s' t := by
  cases hstep with
  | call call hpc =>
      refine .keep ?_ rfl
      rw [State.setPc_pc_self, hpc]
      cases call with
      | release pages =>
          simp only [Call.entry]
          split <;> rfl
      | _ => rfl
  | move hmove =>
      obtain ⟨hold, hnew⟩ := pending?_move hmove
      refine .keep ?_ rfl
      rw [State.setPc_pc_self, hold, hnew]
  | publish truncated hpc =>
      rename_i channel p
      refine .publish p ?_ rfl ?_
      · rw [State.setPc_pc_self]
        unfold afterPublish
        split <;> rfl
      · rw [Published, State.setPc_producer, State.setProducer_producer_self]
        simp [Queue.tail]
  | recycle hpc | create hpc =>
      refine .keep ?_ rfl
      rw [State.setPc_pc_self, hpc]
      exact pending?_purpose_next ..
  | countEmitted hpc =>
      rename_i truncated
      refine .keep ?_ rfl
      rw [State.setPc_pc_self, hpc]
      cases truncated <;> rfl
  | markWon hpc =>
      refine .keep ?_ rfl
      rw [State.setPc_pc_self, hpc]
      unfold afterMark
      split <;> rfl
  | markLost hpc => exact .finish _ (by rw [hpc]; rfl) (by simp [ThreadPc.pending?]) rfl
  | publishBit hpc | publishRetired hpc =>
      refine .keep ?_ ?_
      · rw [State.setPc_pc_self, hpc]
        rfl
      · obtain ⟨registry, hr⟩ := State.publishReadyBit_eq s _
        rw [hr]
        rfl
  | wake hpc =>
      rename_i waker
      cases waker with
      | note record =>
          exact .finish record (by rw [hpc]; rfl) (by simp [wakeStep, ThreadPc.pending?]) rfl
      | _ => exact .keep (by rw [hpc]; simp [wakeStep, ThreadPc.pending?]) rfl
  | flushLeft hpc =>
      refine .keep ?_ rfl
      rw [State.setPc_pc_self]
      rcases hpc with hpc | ⟨target, before, hpc⟩ <;> rw [hpc] <;> rfl
  | setLevel level hpc =>
      refine .keep ?_ rfl
      rw [State.setPc_pc_self]
      rcases hpc with ⟨channel, value, hpc⟩ | ⟨value, hpc⟩ <;> rw [hpc] <;> rfl
  | claimOwner hpc | countDropped hpc | countTruncated hpc | retire hpc | retireLost hpc
  | flushAdmit hpc | flushRequest hpc | destroy hpc | requestStop hpc | joined hpc | resetSinks hpc
  | finishDestroy _ hpc =>
      refine .keep ?_ rfl
      rw [State.setPc_pc_self, hpc]
      rfl

/-- Only a call begins a flush. -/
theorem Next.before? {pc next : ThreadPc} (hnext : Next conf s t pc next)
    {before : List RecordId} (h : next.before? = some before) :
    pc.before? = some before ∨ pc = .idle ∧ before = s.returned := by
  cases hnext with
  | callFlush => exact .inr ⟨rfl, (Option.some.inj h).symm⟩
  | move hmove =>
      cases hmove with
      | flushPresent | flushRunning | flushWait => exact .inl h
      | _ => contradiction
  | flushAdmit | flushRequest | wakeFlush => exact .inl h
  | _ => contradiction

theorem ThreadStep.accepted (hstep : ThreadStep conf s t s') :
    s'.accepted = s.accepted ∨ s'.accepted = s.returned := by
  cases hstep with
  | destroy => exact .inr rfl
  | publishBit | publishRetired =>
      obtain ⟨registry, hr⟩ := State.publishReadyBit_eq s _
      rw [hr]
      exact .inl rfl
  | wake => rename_i waker _; cases waker <;> exact .inl rfl
  | _ => exact .inl rfl

theorem ThreadStep.returned (hstep : ThreadStep conf s t s') (h : r ∈ s.returned) :
    r ∈ s'.returned := by
  rcases hstep.account with ⟨-, hreturned⟩ | ⟨p, -, hreturned, -⟩ | ⟨record, -, -, hreturned⟩
  · rwa [hreturned]
  · rwa [hreturned]
  · rw [hreturned]
    exact List.mem_cons_of_mem _ h

theorem ConsumerStep.ledger_eq (hstep : ConsumerStep conf s s') :
    s'.returned = s.returned ∧ s'.accepted = s.accepted := by
  cases hstep with
  | repost =>
      obtain ⟨registry, hr⟩ := State.publishReadyBit_eq s _
      rw [hr]
      exact ⟨rfl, rfl⟩
  | _ => exact ⟨rfl, rfl⟩

/-! ## The invariant -/

theorem Ledger.thread (h : Ledger s) (hstep : ThreadStep conf s t s') : Ledger s' := by
  have haccount := hstep.account
  have hother : ∀ other, other ≠ t → s'.pc other = s.pc other := fun other => hstep.pc_of_ne
  have hmono : ∀ r, Published s r → Published s' r := fun r hr => hr.thread hstep
  refine
    { returned := ?_
      pending := ?_
      unique := ?_
      accepted := fun r hr => ?_
      before := fun other before hb r hr => ?_ }
  · intro r hr
    rcases haccount with ⟨-, hreturned⟩ | ⟨p, -, hreturned, -⟩ | ⟨record, hold, -, hreturned⟩
    · exact hmono r (h.returned r (hreturned ▸ hr))
    · exact hmono r (h.returned r (hreturned ▸ hr))
    · rw [hreturned] at hr
      rcases List.mem_cons.mp hr with rfl | hr
      · exact hmono _ (h.pending t _ hold).1
      · exact hmono r (h.returned r hr)
  · intro other r hr
    by_cases heq : other = t
    · subst heq
      rcases haccount with
        ⟨hpending, hreturned⟩ | ⟨p, hpending, hreturned, hnew⟩ | ⟨record, -, hnone, -⟩
      · rw [hpending] at hr
        rw [hreturned]
        exact (h.pending _ r hr).imp_left (hmono r)
      · obtain rfl := Option.some.inj (hpending.symm.trans hr)
        refine ⟨hnew, fun hmem => ?_⟩
        rw [hreturned] at hmem
        exact Nat.lt_irrefl _ (h.returned _ hmem)
      · exact absurd (hnone.symm.trans hr) nofun
    · rw [hother other heq] at hr
      obtain ⟨hpublished, hnot⟩ := h.pending other r hr
      refine ⟨hmono r hpublished, ?_⟩
      rcases haccount with ⟨-, hreturned⟩ | ⟨p, -, hreturned, -⟩ | ⟨record, hold, -, hreturned⟩
      · rwa [hreturned]
      · rwa [hreturned]
      · rw [hreturned]
        refine fun hmem => (List.mem_cons.mp hmem).elim ?_ hnot
        rintro rfl
        exact heq (h.unique other t _ hr hold)
  · have hapart : ∀ other r, other ≠ t → (s.pc other).pending? = some r →
        (s'.pc t).pending? ≠ some r := by
      intro other r hne hold hr
      rcases haccount with ⟨hpending, -⟩ | ⟨p, hpending, -, -⟩ | ⟨record, -, hnone, -⟩
      · exact hne (h.unique other t r hold (hpending ▸ hr))
      · obtain rfl := Option.some.inj (hpending.symm.trans hr)
        exact Nat.lt_irrefl _ (h.pending other _ hold).1
      · exact absurd (hnone.symm.trans hr) nofun
    intro a b r ha hb
    by_cases heqa : a = t <;> by_cases heqb : b = t
    · rw [heqa, heqb]
    · exact absurd (heqa ▸ ha) (hapart b r heqb (hother b heqb ▸ hb))
    · exact absurd (heqb ▸ hb) (hapart a r heqa (hother a heqa ▸ ha))
    · exact h.unique a b r (hother a heqa ▸ ha) (hother b heqb ▸ hb)
  · rcases hstep.accepted with haccepted | haccepted
    · exact hstep.returned (h.accepted r (haccepted ▸ hr))
    · exact hstep.returned (haccepted ▸ hr)
  · refine hstep.returned ?_
    by_cases heq : other = t
    · subst heq
      rcases hstep.next.before? hb with hold | ⟨-, rfl⟩
      · exact h.before _ before hold r hr
      · exact hr
    · exact h.before other before (hother other heq ▸ hb) r hr

theorem Ledger.consumer (h : Ledger s) (hstep : ConsumerStep conf s s') : Ledger s' := by
  obtain ⟨hreturned, haccepted⟩ := hstep.ledger_eq
  refine
    { returned := fun r hr => (h.returned r (hreturned ▸ hr)).consumer hstep
      pending := fun t r hr => ?_
      unique := ?_
      accepted := fun r hr => ?_
      before := fun t before hb r hr => ?_ }
  · rw [hstep.pc_eq] at hr
    rw [hreturned]
    exact (h.pending t r hr).imp_left fun hp => hp.consumer hstep
  · rw [hstep.pc_eq]
    exact h.unique
  · rw [hreturned]
    exact h.accepted r (haccepted ▸ hr)
  · rw [hreturned]
    exact h.before t before (hstep.pc_eq ▸ hb) r hr

theorem ledger_step {a : Action} (h : Ledger s) (hstep : step conf s a = some s') : Ledger s' := by
  rcases step_cases hstep with ⟨t, hthread⟩ | hconsumer
  · exact h.thread hthread
  · exact h.consumer hconsumer

theorem ledger_of_reachable (h : (handoff conf).Reachable s) : Ledger s := by
  refine h.invariant ?_ fun s a s' _ hl hstep => ledger_step hl hstep
  rintro _ ⟨level, rfl⟩
  exact ⟨nofun, nofun, nofun, nofun, nofun⟩

end Unlog.Handoff
