import Unlog.Whole.Delivery

/-! # A log call on its own

`log_message` as one function computes what its accesses do one after the other when nobody comes
in between. -/

namespace Unlog.Whole

open Library Emit Render
open Handoff (ProducerId RecordId Sealed Word handoff sleeping waiting)

/-! ## The accesses of a thread -/

section Turns

variable {conf : Sealed} {s s' s'' : Handoff.State} {t channel sink : ℕ} {p : ProducerId}
  {policy : ChannelPolicy}

/-- By its own accesses, outside the callback of `produce`, the thread gets from `s` to `s'`. -/
def Turns (conf : Sealed) (t : ℕ) (s s' : Handoff.State) : Prop :=
  ∃ k, (handoff conf).run s (List.replicate k (.thread t)) = some s'

theorem Turns.refl : Turns conf t s s := ⟨0, rfl⟩

theorem Turns.step (hstep : Handoff.step conf s (.thread t) = some s') (h : Turns conf t s' s'') :
    Turns conf t s s'' := by
  obtain ⟨k, hrun⟩ := h
  exact ⟨k + 1, Option.bind_eq_some_iff.mpr ⟨s', hstep, hrun⟩⟩

theorem Turns.trans (h : Turns conf t s s') (h' : Turns conf t s' s'') : Turns conf t s s'' := by
  obtain ⟨k, hrun⟩ := h
  obtain ⟨k', hrun'⟩ := h'
  refine ⟨k + k', ?_⟩
  rw [List.replicate_add, System.run_append, hrun]
  exact hrun'

theorem setPc_setPc (pc next : Handoff.ThreadPc) :
    (s.setPc t pc).setPc t next = s.setPc t next := by
  simp [Handoff.State.setPc]

/-- An access that only moves the thread on. -/
theorem Turns.move {pc : Handoff.ThreadPc} (next : Handoff.ThreadPc)
    (h : Turns conf t (s.setPc t next) s'')
    (hstep : Handoff.step conf (s.setPc t pc) (.thread t) = some ((s.setPc t pc).setPc t next)) :
    Turns conf t (s.setPc t pc) s'' := by
  rw [setPc_setPc] at hstep
  exact .step hstep h

/-- A thread that has no producer yet enters the critical section. -/
theorem Turns.acquire (hmode : policy.runtimeMode = .threadsafe)
    (htls : s.tls t (policyPages policy) = none)
    (hchannel : conf.channels[channel]? = some ⟨policy.runtimeMode, policyPages policy, sink⟩)
    (hstep : Handoff.acquireStep conf (s.setPc t (.acquire (policyPages policy) (.log channel))) t
      (policyPages policy) (.log channel) = some s') :
    Turns conf t (s.setPc t (.obtain channel)) s' := by
  rw [hmode] at hchannel
  have htls' : (s.setPc t (.obtain channel)).tls t (policyPages policy) = none := htls
  refine .move (.acquire (policyPages policy) (.log channel)) (.step ?_ .refl) ?_
  · simpa only [Handoff.step, Handoff.threadStep, Handoff.State.setPc_pc_self] using hstep
  · simp only [Handoff.step, Handoff.threadStep, Handoff.State.setPc_pc_self, hchannel, htls']

/-- `producer<Policy>()`. -/
theorem Turns.obtain (h : Obtains conf s t policy s' p)
    (hchannel : conf.channels[channel]? = some ⟨policy.runtimeMode, policyPages policy, sink⟩) :
    Turns conf t (s.setPc t (.obtain channel)) (s'.setPc t (.produce channel p)) := by
  cases h with
  | held hmode htls =>
      rw [hmode] at hchannel
      refine .move _ .refl ?_
      have htls' : (s.setPc t (.obtain channel)).tls t (policyPages policy) = some _ := htls
      simp only [Handoff.step, Handoff.threadStep, Handoff.State.setPc_pc_self, hchannel, htls']
  | recycled hmode htls hfree hslot =>
      refine .acquire hmode htls hchannel ?_
      simp only [Handoff.acquireStep, Handoff.State.setPc_registry, if_pos hfree, hslot]
      simp [Handoff.State.setPc, Handoff.State.setTls, Handoff.State.setProducer,
        Handoff.State.setRegistry, Handoff.Purpose.next]
  | made hmode htls hnone hindex hlt =>
      refine .acquire hmode htls hchannel ?_
      subst hindex
      simp only [Handoff.acquireStep, Handoff.State.setPc_registry, hnone, ne_eq, not_true,
        if_false, if_neg (Nat.not_le_of_lt hlt)]
      simp [Handoff.State.setPc, Handoff.State.setTls, Handoff.State.setProducer,
        Handoff.State.setRegistry, Handoff.Purpose.next]
  | owned hmode howner =>
      rw [hmode] at hchannel
      by_cases hdiagnostic : conf.diagnostic = true
      · have howns : ((s.setPc t (.assertOwner channel (policyPages policy))).producer
            (.single (policyPages policy))).owner = some t := howner hdiagnostic
        refine .move (.assertOwner channel (policyPages policy)) (.move _ .refl ?_) ?_
        · simp only [Handoff.step, Handoff.threadStep, Handoff.State.setPc_pc_self, howns, if_true]
        · simp only [Handoff.step, Handoff.threadStep, Handoff.State.setPc_pc_self, hchannel,
            if_pos hdiagnostic]
      · refine .move _ .refl ?_
        simp only [Handoff.step, Handoff.threadStep, Handoff.State.setPc_pc_self, hchannel,
          if_neg hdiagnostic]
  | claimed hmode hdiagnostic howner =>
      rw [hmode] at hchannel
      refine .move (.assertOwner channel (policyPages policy))
        (.move (.claimOwner channel (policyPages policy)) (.step ?_ .refl) ?_) ?_
      · simp only [Handoff.step, Handoff.threadStep, Handoff.State.setPc_pc_self,
          Handoff.State.setPc_producer, howner]
        simp [Handoff.State.setPc, Handoff.State.setProducer]
      · simp only [Handoff.step, Handoff.threadStep, Handoff.State.setPc_pc_self,
          Handoff.State.setPc_producer, howner]
      · simp only [Handoff.step, Handoff.threadStep, Handoff.State.setPc_pc_self, hchannel,
          if_pos hdiagnostic]

/-- A call for which there is no producer ends before it writes anything. -/
theorem Turns.fail {error : StdException}
    (h : obtainProducer conf s t policy true = some (.error error))
    (hchannel : conf.channels[channel]? = some ⟨policy.runtimeMode, policyPages policy, sink⟩) :
    Turns conf t (s.setPc t (.obtain channel)) (s.setPc t .idle) := by
  unfold obtainProducer at h
  split at h
  case h_1 hmode =>
    unfold threadsafeProducer at h
    split at h
    case h_1 => simp at h
    case h_2 htls =>
      simp only at h
      split at h
      case isTrue =>
        split at h
        case h_1 => contradiction
        case h_2 => simp at h
      case isFalse hnone =>
        split at h
        case isTrue hfull =>
          refine .acquire hmode htls hchannel ?_
          simp only [Handoff.acquireStep, Handoff.State.setPc_registry, if_neg hnone, if_pos hfull,
            setPc_setPc]
        case isFalse => simp at h
  case h_2 hmode =>
    rw [hmode] at hchannel
    simp only [diagnosticAssertThread] at h
    split at h
    case isFalse => simp [Except.map] at h
    case isTrue hdiagnostic =>
      split at h
      case h_1 => simp [Except.map] at h
      case h_2 owner howner =>
        by_cases hown : owner = t
        · simp [Except.map, hown] at h
        · have howns : ((s.setPc t (.assertOwner channel (policyPages policy))).producer
              (.single (policyPages policy))).owner = some owner := howner
          refine .move (.assertOwner channel (policyPages policy)) (.move _ .refl ?_) ?_
          · simp only [Handoff.step, Handoff.threadStep, Handoff.State.setPc_pc_self, howns,
              if_neg hown]
          · simp only [Handoff.step, Handoff.threadStep, Handoff.State.setPc_pc_self, hchannel,
              if_pos hdiagnostic]

theorem pooled_of_obtains (h : Obtains conf s t policy s' p) :
    policy.runtimeMode = .threadsafe ↔ ∃ pages index, p = .pooled pages index := by
  cases h with
  | held hmode | recycled hmode | made hmode => simp [hmode]
  | owned hmode | claimed hmode => simp [hmode]

theorem returned_of_obtains (h : Obtains conf s t policy s' p) : s'.returned = s.returned := by
  cases h <;> rfl

/-- `count_dropped`. -/
theorem Turns.drop (conf : Sealed) (s : Handoff.State) (t : ℕ) (p : ProducerId) :
    Turns conf t (s.setPc t (Handoff.afterDrop conf p))
      ((countDropped conf s p).setPc t .idle) := by
  unfold Handoff.afterDrop countDropped
  by_cases hdiagnostic : conf.diagnostic = true
  · rw [if_pos hdiagnostic, if_pos hdiagnostic]
    refine .step ?_ .refl
    simp only [Handoff.step, Handoff.threadStep, Handoff.State.setPc_pc_self]
    simp [Handoff.State.setPc, Handoff.State.setProducer]
  · rw [if_neg hdiagnostic, if_neg hdiagnostic]
    exact .refl

/-- `count_emitted` and `count_truncated`. -/
theorem Turns.count (conf : Sealed) (s : Handoff.State) (t : ℕ) (r : RecordId) (truncated : Bool) :
    Turns conf t (s.setPc t (Handoff.afterPublish conf r truncated))
      ((countPublished conf s r.producer truncated).setPc t (.markEnqueued r)) := by
  unfold Handoff.afterPublish countPublished
  by_cases hdiagnostic : conf.diagnostic = true
  · rw [if_pos hdiagnostic, if_pos hdiagnostic]
    cases truncated with
    | false =>
        refine .step ?_ .refl
        simp only [Handoff.step, Handoff.threadStep, Handoff.State.setPc_pc_self]
        simp [Handoff.State.setPc, Handoff.State.setProducer]
    | true =>
        have hemitted : Handoff.step conf (s.setPc t (.countEmitted r true)) (.thread t) =
            some ((s.setProducer r.producer { s.producer r.producer with
              emitted := (s.producer r.producer).emitted + 1 }).setPc t (.countTruncated r)) := by
          simp only [Handoff.step, Handoff.threadStep, Handoff.State.setPc_pc_self]
          simp [Handoff.State.setPc, Handoff.State.setProducer]
        refine .step hemitted (.step ?_ .refl)
        simp only [Handoff.step, Handoff.threadStep, Handoff.State.setPc_pc_self]
        simp [Handoff.State.setPc, Handoff.State.setProducer]
  · rw [if_neg hdiagnostic, if_neg hdiagnostic]
    exact .refl

theorem publishReadyBit_setPc (pc : Handoff.ThreadPc) :
    (s.setPc t pc).publishReadyBit p = (s.publishReadyBit p).setPc t pc := by
  simp only [Handoff.State.publishReadyBit, Handoff.State.setPc_producer]
  split <;> rfl

theorem Turns.wake (conf : Sealed) (s : Handoff.State) (t : ℕ) (r : RecordId) :
    Turns conf t (s.setPc t (.wake (.note r)))
      ({ s with wakeSeq := s.wakeSeq + 1 }.finishLog t r) := by
  refine .step ?_ .refl
  simp only [Handoff.step, Handoff.threadStep, Handoff.State.setPc_pc_self, Handoff.wakeStep,
    Handoff.State.finishLog]
  simp [Handoff.State.setPc]

/-- `note_work`. -/
theorem Turns.note (conf : Sealed) (s : Handoff.State) (t : ℕ) {r : RecordId}
    (hmode : policy.runtimeMode = .threadsafe ↔ ∃ pages index, r.producer = .pooled pages index) :
    Turns conf t (s.setPc t (.markEnqueued r)) ((noteWork s r.producer policy).finishLog t r) := by
  have hflag : ((s.setPc t (.markEnqueued r)).producer r.producer).enqueued =
      (s.producer r.producer).enqueued := rfl
  unfold noteWork
  by_cases henqueued : (s.producer r.producer).enqueued = true
  · rw [if_pos henqueued]
    refine .step ?_ .refl
    simp only [Handoff.step, Handoff.threadStep, Handoff.State.setPc_pc_self, hflag,
      if_pos henqueued]
    simp [Handoff.State.finishLog, Handoff.State.setPc]
  · rw [if_neg henqueued]
    have hmarked : Handoff.step conf (s.setPc t (.markEnqueued r)) (.thread t) =
        some ((s.setProducer r.producer { s.producer r.producer with enqueued := true }).setPc t
          (Handoff.afterMark r)) := by
      simp only [Handoff.step, Handoff.threadStep, Handoff.State.setPc_pc_self, hflag,
        if_neg henqueued]
      simp [Handoff.State.setProducer, Handoff.State.setPc]
    refine .step hmarked ?_
    cases hr : r.producer with
    | single pages =>
        have hsingle : policy.runtimeMode ≠ .threadsafe := by
          intro hthreadsafe
          obtain ⟨pages', index, hpooled⟩ := hmode.mp hthreadsafe
          rw [hr] at hpooled
          contradiction
        simp only [Handoff.afterMark, hr, if_neg hsingle]
        exact .wake ..
    | pooled pages index =>
        simp only [Handoff.afterMark, hr, if_pos (hmode.mpr ⟨pages, index, hr⟩)]
        refine .step ?_ (.wake ..)
        simp only [Handoff.step, Handoff.threadStep, Handoff.State.setPc_pc_self, hr,
          publishReadyBit_setPc, setPc_setPc]

end Turns

/-! ## The callback of `produce` -/

section Produce

variable {E : Type} {maxRecordSize : ℕ} {conf : Sealed} {s : Handoff.State} {t : ℕ}
  {p : ProducerId} {policy : ChannelPolicy} {storage : Payload maxRecordSize}
  {request : LogRequest E} {slots : ProducerId → List (BasicRecordSlot maxRecordSize)}

/-- Where `log_message` goes on after `produce`. -/
def afterProduce (conf : Sealed) (r : RecordId) (published : Bool)
    (outcome : ProduceRecordOutcome E) : Handoff.ThreadPc :=
  if outcome.error.isSome then .idle
  else if published = false then Handoff.afterDrop conf r.producer
  else Handoff.afterPublish conf r outcome.truncated

theorem final?_afterProduce (conf : Sealed) (r : RecordId) (published : Bool)
    (outcome : ProduceRecordOutcome E) : (afterProduce conf r published outcome).final? = none := by
  unfold afterProduce Handoff.afterDrop Handoff.afterPublish
  repeat' split
  all_goals rfl

/-- `produce` does not see where the thread stands. -/
theorem produce_setPc (pc : Handoff.ThreadPc) :
    produce conf ⟨s.setPc t pc, slots⟩ p policy storage request =
      (produce conf ⟨s, slots⟩ p policy storage request).map fun produced =>
        ({ produced.1 with shared := produced.1.shared.setPc t pc }, produced.2) := by
  by_cases hfull : conf.capacity p.pages ≤ (s.producer p).queue.tail - (s.producer p).queue.head
  · have hmoved : produce conf ⟨s.setPc t pc, slots⟩ p policy storage request =
        some (⟨s.setPc t pc, slots⟩, false, {}, []) := if_pos hfull
    have hhere : produce conf ⟨s, slots⟩ p policy storage request =
        some (⟨s, slots⟩, false, {}, []) := if_pos hfull
    rw [hmoved, hhere, Option.map_some]
  · have hmoved : produce conf ⟨s.setPc t pc, slots⟩ p policy storage request = _ := if_neg hfull
    have hhere : produce conf ⟨s, slots⟩ p policy storage request = _ := if_neg hfull
    rw [hmoved, hhere, Option.map_map]
    refine congrArg (Option.map · _) (funext fun produced => ?_)
    rw [Function.comp_apply]
    cases produced.outcome.publish <;> rfl

/-- The hand-off does with its outcome what `produce` did. -/
theorem produceStep_tell
    {produced : Backend maxRecordSize × Bool × ProduceRecordOutcome E × List SlotEvent}
    (h : produce conf ⟨s, slots⟩ p policy storage request = some produced) :
    Handoff.step conf (s.setPc t (.produce request.route p))
        (.produce t (tell produced.2.2.1)) =
      some (produced.1.shared.setPc t
        (afterProduce conf ⟨p, (s.producer p).queue.tail⟩ produced.2.1 produced.2.2.1)) := by
  simp only [Handoff.step, Handoff.State.setPc_pc_self, Option.some.injEq]
  by_cases hfull : conf.capacity p.pages ≤ (s.producer p).queue.tail - (s.producer p).queue.head
  · have hproduce : produce conf ⟨s, slots⟩ p policy storage request =
        some (⟨s, slots⟩, false, {}, []) := if_pos hfull
    obtain rfl := Option.some.inj (hproduce.symm.trans h)
    have hstep : Handoff.produceStep conf (s.setPc t (.produce request.route p)) t request.route p
        .dropped = _ := if_pos hfull
    exact hstep.trans (setPc_setPc _ _)
  · obtain ⟨record, hrecord, hcase⟩ := produceRuntimeRecord_produced policy storage request
    have hproduce : produce conf ⟨s, slots⟩ p policy storage request = _ := if_neg hfull
    rw [hrecord, Option.map_some] at hproduce
    obtain rfl := Option.some.inj (hproduce.symm.trans h)
    have hstep : ∀ outcome, Handoff.produceStep conf (s.setPc t (.produce request.route p)) t
        request.route p outcome = _ := fun outcome => if_neg hfull
    rw [hstep]
    cases hcase with
    | dropped => exact setPc_setPc _ _
    | threw => exact setPc_setPc _ _
    | @published slot formatted hformatting hholds =>
        have hsame : ∀ value next, ((s.setPc t (.produce request.route p)).setProducer p
            value).setPc t next = (s.setProducer p value).setPc t next := by
          simp [Handoff.State.setProducer, Handoff.State.setPc]
        cases htruncated : slot.header.truncated with
        | false =>
            refine (hsame _ _).trans ?_
            simp only [Backend.publish, htruncated]
            rfl
        | true =>
            refine (hsame _ _).trans ?_
            simp only [Backend.publish, htruncated]
            rfl

/-- What is left to do after `produce`, done. -/
def finished (conf : Sealed) (policy : ChannelPolicy) (s : Handoff.State) (t : ℕ) (r : RecordId)
    (published : Bool) (outcome : ProduceRecordOutcome E) : Handoff.State :=
  if outcome.error.isSome then s.setPc t .idle
  else if published = false then (countDropped conf s r.producer).setPc t .idle
  else
    (noteWork (countPublished conf s r.producer outcome.truncated) r.producer policy).finishLog t r

theorem Turns.finish (conf : Sealed) (s : Handoff.State) (t : ℕ) {r : RecordId} (published : Bool)
    (outcome : ProduceRecordOutcome E)
    (hmode : policy.runtimeMode = .threadsafe ↔ ∃ pages index, r.producer = .pooled pages index) :
    Turns conf t (s.setPc t (afterProduce conf r published outcome))
      (finished conf policy s t r published outcome) := by
  unfold afterProduce finished
  by_cases herror : outcome.error.isSome = true
  · rw [if_pos herror, if_pos herror]
    exact .refl
  · rw [if_neg herror, if_neg herror]
    cases published with
    | false => exact .drop ..
    | true => exact (Turns.count ..).trans (.note _ _ _ hmode)

theorem countDropped_returned : (countDropped conf s p).returned = s.returned := by
  unfold countDropped
  split <;> rfl

theorem countPublished_returned (truncated : Bool) :
    (countPublished conf s p truncated).returned = s.returned := by
  unfold countPublished
  split
  · split <;> rfl
  · rfl

theorem noteWork_returned : (noteWork s p policy).returned = s.returned := by
  unfold noteWork
  split
  · rfl
  · split
    · obtain ⟨registry, hregistry⟩ := Handoff.State.publishReadyBit_eq
        (s.setProducer p { s.producer p with enqueued := true }) p
      simp only [hregistry]
      rfl
    · rfl

/-- `log_message` once it has its producer. -/
theorem logMessage_of_obtained {b : Backend maxRecordSize} {r : RecordId}
    {produced : Backend maxRecordSize × Bool × ProduceRecordOutcome E × List SlotEvent}
    (hobtain : obtainProducer conf b.shared t policy true = some (.ok (s, r.producer)))
    (hproduce : produce conf ⟨s, b.slots⟩ r.producer policy storage request = some produced) :
    ∃ ret, logMessage conf b t policy true storage request = some ret ∧
      ret.backend.slots = produced.1.slots ∧
      finished conf policy produced.1.shared t r produced.2.1 produced.2.2.1 =
        { ret.backend.shared.setPc t .idle with
          returned := if produced.2.1 then r :: s.returned else s.returned } := by
  obtain ⟨backend, published, outcome, lifetime⟩ := produced
  simp only [logMessage, hobtain, hproduce, Option.map_some]
  cases herror : outcome.error with
  | some error =>
      obtain ⟨rfl, rfl, -⟩ | ⟨slot, formatted, -, -, -, -, -, htell⟩ := produce_cases hproduce
      · refine ⟨_, rfl, rfl, ?_⟩
        simp only [finished, herror]
        rfl
      · simp [tell, herror] at htell
  | none =>
      obtain ⟨rfl, rfl, -⟩ | ⟨slot, formatted, -, -, rfl, rfl, -, -⟩ := produce_cases hproduce
      · refine ⟨⟨⟨countDropped conf s r.producer, b.slots⟩, .ok (), lifetime⟩, rfl, rfl, ?_⟩
        simp only [finished, herror]
        exact congrArg (fun list => { (countDropped conf s r.producer).setPc t .idle with
          returned := list }) countDropped_returned
      · refine ⟨_, rfl, rfl, ?_⟩
        simp only [finished, herror]
        exact congrArg (fun list => { (noteWork (countPublished conf
            (Backend.publish ⟨s, b.slots⟩ r.producer request.route slot).shared r.producer
              outcome.truncated) r.producer policy).setPc t .idle with returned := r :: list })
          (noteWork_returned.trans (countPublished_returned _))

end Produce

/-! ## The program with one thread running -/

variable {setup : Setup} {E : Type} {cstr : ℕ → Text} {localtime : ℤ → Tm}
  {x x' x'' : State setup E} {t : ℕ}

/-- Who acts; the consumer is `none`. -/
def Action.actor : Action setup E → Option ℕ
  | .produce t _ _ => some t
  | .other (.act a) => a.thread?
  | .other (.load actor) | .other (.compare actor) | .other (.notify actor _) => actor

/-- The thread is awake and owes no notification. -/
structure State.Ready (x : State setup E) (t : ℕ) : Prop where
  awake : x.shared.mode (some t) = .awake
  owes : x.shared.owes (some t) = none

/-- The thread gets from `x` to `x'` while nobody else acts. -/
structure Alone (cstr : ℕ → Text) (localtime : ℤ → Tm) (t : ℕ) (x x' : State setup E) : Prop where
  run : ∃ actions, (∀ a ∈ actions, a.actor = some t) ∧
    (program setup E cstr localtime).run x actions = some x'
  ready : x'.Ready t
  emission : x'.emission = x.emission

theorem Alone.trans (h : Alone cstr localtime t x x') (h' : Alone cstr localtime t x' x'') :
    Alone cstr localtime t x x'' := by
  obtain ⟨actions, hown, hrun⟩ := h.run
  obtain ⟨rest, hown', hrun'⟩ := h'.run
  refine ⟨⟨actions ++ rest, ?_, ?_⟩, h'.ready, h'.emission.trans h.emission⟩
  · exact fun a ha => (List.mem_append.mp ha).elim (hown a) (hown' a)
  · rw [System.run_append, hrun]
    exact hrun'

/-- One access, with the notification it owes. -/
theorem alone_access (cstr : ℕ → Text) (localtime : ℤ → Tm) {s : Handoff.State} (h : x.Ready t)
    (hstep : Handoff.step setup.sealed x.shared.state (.thread t) = some s)
    (hreset : ∀ final, x.shared.state.pc t ≠ .resetSinks final) :
    ∃ shared, shared.state = s ∧ Alone cstr localtime t x { x with shared := shared } := by
  have hact : (sleeping setup.sealed).step x.shared (.act (.thread t)) = some { x.shared with
      state := s
      owes := Function.update x.shared.owes (some t) (x.shared.state.notifies (.thread t)) } := by
    refine (if_pos ⟨h.awake, h.owes⟩).trans ?_
    rw [show (waiting setup.sealed).base.step x.shared.state (.thread t) = some s from hstep]
    rfl
  have hemission : emissionAfter cstr localtime x (.act (.thread t)) = x.emission := by
    refine (emissionAfter_of_none cstr localtime rfl).2 fun final hpc => ?_
    exact hreset final (Option.some.inj hpc)
  have hfirst : (program setup E cstr localtime).step x (.other (.act (.thread t))) =
      some { x with
        shared := { x.shared with
          state := s
          owes := Function.update x.shared.owes (some t)
            (x.shared.state.notifies (.thread t)) } } := by
    change ((sleeping setup.sealed).step x.shared (.act (.thread t))).map _ = _
    rw [hact, Option.map_some, hemission]
  cases hnotifies : x.shared.state.notifies (.thread t) with
  | none =>
      rw [hnotifies] at hfirst
      refine ⟨_, rfl, ⟨[.other (.act (.thread t))], ?_,
        Option.bind_eq_some_iff.mpr ⟨_, hfirst, rfl⟩⟩, ⟨h.awake, Function.update_self ..⟩, rfl⟩
      simp [Action.actor, Handoff.Action.thread?]
  | some word =>
      rw [hnotifies] at hfirst
      have howed : Function.update x.shared.owes (some t) (some word) (some t) = some word :=
        Function.update_self ..
      obtain ⟨picked, shared, hnotify, hstate, howes, hmode⟩ : ∃ picked shared,
          (sleeping setup.sealed).step { x.shared with
              state := s
              owes := Function.update x.shared.owes (some t) (some word) }
            (.notify (some t) picked) = some shared ∧ shared.state = s ∧
          shared.owes = Function.update (Function.update x.shared.owes (some t) (some word))
            (some t) none ∧ shared.mode (some t) = (x.shared.mode (some t)).woken :=
        Waits.notify_wakes howed (.inl h.awake)
      have hsecond : (program setup E cstr localtime).step { x with shared := { x.shared with
            state := s
            owes := Function.update x.shared.owes (some t) (some word) } }
          (.other (.notify (some t) picked)) = some { x with shared := shared } := by
        change ((sleeping setup.sealed).step _ (.notify (some t) picked)).map _ = _
        rw [hnotify, Option.map_some]
        rfl
      refine ⟨shared, hstate, ⟨[.other (.act (.thread t)), .other (.notify (some t) picked)], ?_,
        Option.bind_eq_some_iff.mpr ⟨_, hfirst,
          Option.bind_eq_some_iff.mpr ⟨_, hsecond, rfl⟩⟩⟩, ⟨?_, ?_⟩, rfl⟩
      · simp [Action.actor, Handoff.Action.thread?]
      · rw [hmode, h.awake]
        rfl
      · rw [howes, Function.update_self]

/-- Nobody comes to a shutdown but by calling it. -/
theorem outside_of_next {conf : Sealed} {s : Handoff.State} {pc next : Handoff.ThreadPc}
    (hnext : Handoff.Next conf s t pc next) (hidle : pc ≠ .idle) (h : pc.final? = none) :
    next.final? = none := by
  cases hnext with
  | callDestroy => contradiction
  | move hmove => cases hmove <;> first | rfl | contradiction
  | _ => first | rfl | contradiction

/-- The accesses of the hand-off are accesses of the program. -/
theorem alone_of_turns (cstr : ℕ → Text) (localtime : ℤ → Tm) {s : Handoff.State} (h : x.Ready t)
    (hturns : Turns setup.sealed t x.shared.state s)
    (hfinal : (x.shared.state.pc t).final? = none) :
    ∃ shared, shared.state = s ∧ Alone cstr localtime t x { x with shared := shared } := by
  obtain ⟨k, hrun⟩ := hturns
  induction k generalizing x with
  | zero =>
      exact ⟨x.shared, Option.some.inj hrun, ⟨[], by simp, rfl⟩, h, rfl⟩
  | succ k ih =>
      obtain ⟨next, hstep, hrest⟩ := Option.bind_eq_some_iff.mp hrun
      have hreset : ∀ final, x.shared.state.pc t ≠ .resetSinks final := by
        intro final hpc
        rw [hpc] at hfinal
        contradiction
      obtain ⟨middle, rfl, hone⟩ := alone_access cstr localtime h hstep hreset
      have hidle : x.shared.state.pc t ≠ .idle := by
        intro hpc
        have hnone : Handoff.threadStep setup.sealed x.shared.state t = none := by
          simp only [Handoff.threadStep, hpc]
        exact Option.some_ne_none _ (hstep.symm.trans hnone)
      have hnext := (Handoff.threadStep_cases hstep).next
      obtain ⟨shared, hstate, hmore⟩ := ih hone.ready (outside_of_next hnext hidle hfinal) hrest
      exact ⟨shared, hstate, hone.trans hmore⟩

/-- The access that runs the callback. -/
theorem alone_produce (cstr : ℕ → Text) (localtime : ℤ → Tm) {s : Handoff.State} {p : ProducerId}
    {storage : Payload setup.global.maxRecordSize} {request : LogRequest E} {stored : Config × ℕ}
    {produced : Backend setup.global.maxRecordSize × Bool × ProduceRecordOutcome E ×
      List SlotEvent} (h : x.Ready t)
    (hstate : x.shared.state = s.setPc t (.produce request.route p))
    (hstored : setup.channels[request.route]? = some stored)
    (hproduce : produce setup.sealed ⟨s, x.slots⟩ p (channelPolicyFor stored.1) storage request =
      some produced) :
    ∃ x', Alone cstr localtime t x x' ∧ x'.slots = produced.1.slots ∧
      x'.logged = (if produced.2.1 then Function.update x.logged p (x.logged p ++ [request])
        else x.logged) ∧
      x'.shared.state = produced.1.shared.setPc t
        (afterProduce setup.sealed ⟨p, (s.producer p).queue.tail⟩ produced.2.1 produced.2.2.1) := by
  have hpc : x.shared.state.pc t = .produce request.route p := by
    rw [hstate, Handoff.State.setPc_pc_self]
  have hstep := produceStep_tell (t := t) hproduce
  rw [← hstate] at hstep
  have hact : (sleeping setup.sealed).step x.shared (.act (.produce t (tell produced.2.2.1))) =
      some { x.shared with
        state := produced.1.shared.setPc t
          (afterProduce setup.sealed ⟨p, (s.producer p).queue.tail⟩ produced.2.1 produced.2.2.1)
        owes := Function.update x.shared.owes (some t) none } := by
    refine (if_pos ⟨h.awake, h.owes⟩).trans ?_
    exact (congrArg (Option.map _) hstep).trans rfl
  have hproduce' : produce setup.sealed ⟨x.shared.state, x.slots⟩ p (channelPolicyFor stored.1)
      storage request = some ({ produced.1 with
        shared := produced.1.shared.setPc t (.produce request.route p) }, produced.2) := by
    rw [hstate, produce_setPc, hproduce, Option.map_some]
  have hnext : (program setup E cstr localtime).step x (.produce t storage request) =
      some { x with
        shared := { x.shared with
          state := produced.1.shared.setPc t
            (afterProduce setup.sealed ⟨p, (s.producer p).queue.tail⟩ produced.2.1 produced.2.2.1)
          owes := Function.update x.shared.owes (some t) none }
        slots := produced.1.slots
        logged := if produced.2.1 then Function.update x.logged p (x.logged p ++ [request])
          else x.logged } := by
    change produceStep x t storage request = _
    simp only [produceStep, hpc, hstored, ne_eq, not_true, if_false, hproduce', Option.bind_some,
      hact, Option.map_some]
  exact ⟨_, ⟨⟨[.produce t storage request], by simp [Action.actor],
    Option.bind_eq_some_iff.mpr ⟨_, hnext, rfl⟩⟩, ⟨h.awake, Function.update_self ..⟩, rfl⟩,
    rfl, rfl, rfl⟩

/-- What `log_message` returns is what the accesses have made of the memory. If the call published,
its record is the next one of its producer, and a call that has returned. -/
structure Returns (x x' : State setup E) (t : ℕ) (request : LogRequest E)
    (ret : LogReturn E setup.global.maxRecordSize) : Prop where
  slots : x'.slots = ret.backend.slots
  shared : x'.shared.state = { ret.backend.shared.setPc t .idle with
    returned := x'.shared.state.returned }
  history :
    (ret.backend.slots = x.slots ∧ x'.logged = x.logged ∧
      x'.shared.state.returned = x.shared.state.returned) ∨
    ∃ p slot, ret.backend.slots = Function.update x.slots p (x.slots p ++ [slot]) ∧
      x'.logged = Function.update x.logged p (x.logged p ++ [request]) ∧
      x'.shared.state.returned = ⟨p, (x.slots p).length⟩ :: x.shared.state.returned

section Call

variable {request : LogRequest E} {stored : Config × ℕ} {s : Handoff.State} {p : ProducerId}

/-- The call once it has its producer. -/
theorem accesses_of_obtained (hstocked : Stocked x) (hready : x.Ready t)
    (hfinal : (x.shared.state.pc t).final? = none)
    (hstored : setup.channels[request.route]? = some stored)
    (hobtain : obtainProducer setup.sealed x.shared.state t (channelPolicyFor stored.1) true =
      some (.ok (s, p)))
    (hturns : Turns setup.sealed t x.shared.state (s.setPc t (.produce request.route p)))
    (storage : Payload setup.global.maxRecordSize) :
    ∃ ret x', logMessage setup.sealed ⟨x.shared.state, x.slots⟩ t (channelPolicyFor stored.1) true
        storage request = some ret ∧ Alone cstr localtime t x x' ∧
      Returns x x' t request ret := by
  have hobtains := obtainProducer_obtains hobtain
  obtain ⟨shared, hstate, halone⟩ := alone_of_turns cstr localtime hready hturns hfinal
  obtain ⟨produced, hproduce⟩ := exists_produce setup.sealed ⟨s, x.slots⟩ p
    (channelPolicyFor stored.1) storage request
  obtain ⟨middle, halone', hslots, hlogged, hmiddle⟩ :=
    alone_produce cstr localtime halone.ready hstate hstored hproduce
  have hrest := Turns.finish setup.sealed produced.1.shared t
    (r := ⟨p, (s.producer p).queue.tail⟩) produced.2.1 produced.2.2.1 (pooled_of_obtains hobtains)
  rw [← hmiddle] at hrest
  have hfinal' : (middle.shared.state.pc t).final? = none := by
    rw [hmiddle, Handoff.State.setPc_pc_self]
    exact final?_afterProduce ..
  obtain ⟨last, hlast, halone''⟩ := alone_of_turns cstr localtime halone'.ready hrest hfinal'
  obtain ⟨ret, hret, hretSlots, hretShared⟩ := logMessage_of_obtained
    (b := ⟨x.shared.state, x.slots⟩) (r := ⟨p, (s.producer p).queue.tail⟩) hobtain hproduce
  refine ⟨ret, _, hret, (halone.trans halone').trans halone'', hslots.trans hretSlots.symm, ?_, ?_⟩
  · simp only [hlast, hretShared]
  · simp only [hlast, hretShared, returned_of_obtains hobtains, hretSlots, hlogged]
    obtain ⟨hbackend, hpublished, -⟩ | ⟨slot, formatted, -, -, hbackend, hpublished, -⟩ :=
      produce_cases hproduce
    · rw [hbackend, hpublished, if_neg Bool.false_ne_true, if_neg Bool.false_ne_true]
      exact .inl ⟨rfl, rfl, rfl⟩
    · rw [hbackend, hpublished, if_pos rfl, if_pos rfl]
      have huntouched : Untouched _ ⟨x.shared.state, x.slots⟩ ⟨s, x.slots⟩ := hobtains.untouched
      have hnumber : (s.producer p).queue.tail = (x.slots p).length := by
        rw [hstocked.slots, ← huntouched.queue p]
      exact .inr ⟨p, slot, rfl, rfl, by rw [hnumber]⟩

/-- From every state of the program, a log call that nobody interrupts: `log_message` returns, and
the accesses of the call make of the memory what it computes. -/
theorem logMessage_accesses (h : (program setup E cstr localtime).Reachable x)
    (hready : x.Ready t) (hpc : x.shared.state.pc t = .obtain request.route)
    (hstored : setup.channels[request.route]? = some stored)
    (storage : Payload setup.global.maxRecordSize) :
    ∃ ret x', logMessage setup.sealed ⟨x.shared.state, x.slots⟩ t (channelPolicyFor stored.1) true
        storage request = some ret ∧ Alone cstr localtime t x x' ∧
      Returns x x' t request ret := by
  have hstocked := stocked_of_reachable h
  have hchannel : setup.sealed.channels[request.route]? = some
      ⟨(channelPolicyFor stored.1).runtimeMode, policyPages (channelPolicyFor stored.1),
        stored.2⟩ := by
    change (setup.channels.map _)[request.route]? = _
    rw [List.getElem?_map, hstored]
    rfl
  have hat : x.shared.state.setPc t (.obtain request.route) = x.shared.state := by
    rw [Handoff.State.setPc, ← hpc, Function.update_eq_self]
  have hfinal : (x.shared.state.pc t).final? = none := by
    rw [hpc]
    rfl
  obtain ⟨obtained, hobtain⟩ : ∃ obtained, obtainProducer setup.sealed x.shared.state t
      (channelPolicyFor stored.1) true = some obtained := obtainProducer_isSome hstocked.handoff
  cases obtained with
  | error error =>
      have hturns := Turns.fail hobtain hchannel
      rw [hat] at hturns
      obtain ⟨shared, hstate, halone⟩ := alone_of_turns cstr localtime hready hturns hfinal
      refine ⟨⟨⟨x.shared.state, x.slots⟩, .error (.producer error), []⟩, _,
        by simp only [logMessage, hobtain], halone, rfl, ?_, .inl ⟨rfl, rfl, ?_⟩⟩
      · simp only [hstate]
      · simp only [hstate]
        rfl
  | ok obtained =>
      have hturns := Turns.obtain (obtainProducer_obtains hobtain) hchannel
      rw [hat] at hturns
      exact accesses_of_obtained hstocked hready hfinal hstored hobtain hturns storage

end Call

/-- The first call of a thread makes its producer and publishes on it. -/
theorem logMessage_accesses_first :
    ∃ x ret x', (program demoSetup Unit (fun _ => []) fun _ => ⟨0, 0, 0⟩).run
        { shared := { state := .started demoSetup.sealed fun _ => .info } }
        [.other (.act (.call 0 (.logUnchecked 0)))] = some x ∧
      ret.lifetime = [.constructAt] ∧
      Alone (fun _ => []) (fun _ => ⟨0, 0, 0⟩) 0 x x' ∧ Returns x x' 0 demoHello ret := by
  have hcall : (((program demoSetup Unit (fun _ => []) fun _ => ⟨0, 0, 0⟩).run
      { shared := { state := .started demoSetup.sealed fun _ => .info } }
      [.other (.act (.call 0 (.logUnchecked 0)))]).bind fun x =>
        (logMessage demoSetup.sealed ⟨x.shared.state, x.slots⟩ 0
            (channelPolicyFor demoSetup.channels[0].1) true demoPayload demoHello).map fun ret =>
          (x.shared.state.pc 0, x.shared.mode (some 0), x.shared.owes (some 0), ret.lifetime)) =
      some (.obtain 0, .awake, none, [.constructAt]) := by
    decide +kernel
  obtain ⟨x, hx, hmap⟩ := Option.bind_eq_some_iff.mp hcall
  obtain ⟨ret, hret, hfacts⟩ := Option.map_eq_some_iff.mp hmap
  simp only [Prod.mk.injEq] at hfacts
  obtain ⟨hpc, hawake, howes, hlifetime⟩ := hfacts
  obtain ⟨ret', x', hret', halone, hreturns⟩ : ∃ ret x',
      logMessage demoSetup.sealed ⟨x.shared.state, x.slots⟩ 0
        (channelPolicyFor demoSetup.channels[0].1) true demoPayload demoHello = some ret ∧
      Alone (fun _ => []) (fun _ => ⟨0, 0, 0⟩) 0 x x' ∧ Returns x x' 0 demoHello ret :=
    logMessage_accesses (.run (.initial ⟨_, rfl⟩) hx) ⟨hawake, howes⟩ hpc rfl demoPayload
  obtain rfl : ret = ret' := Option.some.inj (hret.symm.trans hret')
  exact ⟨x, ret, x', hx, hlifetime, halone, hreturns⟩

end Unlog.Whole
