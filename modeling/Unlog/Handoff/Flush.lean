import Unlog.Handoff.Blocked
import Unlog.Handoff.Ledger

/-! # Flushes are complete

A flush waits for a round of the consumer that began after it was requested, and that round
takes and flushes every record whose log call had returned before. -/

namespace Unlog.Handoff

variable {conf : Sealed} {s s' : State} {t : ℕ} {r : RecordId}

/-- The request a flush waits for, and the records it answers for. -/
def ThreadPc.target? : ThreadPc → Option (ℕ × List RecordId)
  | .wake (.flush target before) => some (target, before)
  | .flushWait target before => some (target, before)
  | .flushLeave target before => some (target, before)
  | _ => none

theorem before?_of_target? {pc : ThreadPc} {target : ℕ} {before : List RecordId}
    (h : pc.target? = some (target, before)) : pc.before? = some before := by
  cases pc with
  | wake waker =>
      cases waker with
      | flush target' before' =>
          obtain ⟨rfl, rfl⟩ := Prod.mk.inj (Option.some.inj h)
          rfl
      | _ => contradiction
  | flushWait | flushLeave =>
      obtain ⟨rfl, rfl⟩ := Prod.mk.inj (Option.some.inj h)
      rfl
  | _ => contradiction

/-- The requests that a flush pass answers. -/
def Round.request? : Round → Option ℕ
  | .flush requested => some requested
  | _ => none

def ConsumerPc.walking? : ConsumerPc → Option ℕ
  | .pass round _ => round.request?
  | .visit round _ _ _ => round.request?
  | _ => none

/-- The requests that the round of the consumer answers. -/
def ConsumerPc.requested? : ConsumerPc → Option ℕ
  | .flushSinks requested => some requested
  | .completeFlush requested => some requested
  | consumer => consumer.walking?

/-- How far the consumer has come with a record for a flush of a given request. -/
structure Served (conf : Sealed) (s : State) (target : ℕ) (r : RecordId) : Prop where
  done : target ≤ s.flushCompleted → Secured conf s r
  walking : ∀ requested, s.consumer.walking? = some requested → target ≤ requested → Covered s r
  taken : ∀ requested, s.consumer = .flushSinks requested → target ≤ requested → Taken s r
  flushed : ∀ requested, s.consumer = .completeFlush requested → target ≤ requested →
    Secured conf s r

structure FlushSound (conf : Sealed) (s : State) : Prop where
  bounded : s.flushCompleted ≤ s.flushRequested
  round : ∀ requested, s.consumer.requested? = some requested →
    s.flushCompleted ≤ requested ∧ requested ≤ s.flushRequested
  served : ∀ t target before, (s.pc t).target? = some (target, before) →
    target ≤ s.flushRequested ∧ ∀ r ∈ before, Served conf s target r
  leaving : ∀ t target before, s.pc t = .flushLeave target before → target ≤ s.flushCompleted

/-! ## Steps of a thread -/

theorem ThreadStep.requested_le (hstep : ThreadStep conf s t s') :
    s.flushRequested ≤ s'.flushRequested := by
  cases hstep with
  | flushRequest => exact Nat.le_succ _
  | publishBit | publishRetired =>
      obtain ⟨registry, hr⟩ := State.publishReadyBit_eq s _
      rw [hr]
      exact Nat.le_refl _
  | wake => rename_i waker _; cases waker <;> exact Nat.le_refl _
  | _ => exact Nat.le_refl _

theorem ThreadStep.requested_succ (hstep : ThreadStep conf s t s') {before : List RecordId}
    (hpc : s.pc t = .flushRequest before) : s.flushRequested + 1 ≤ s'.flushRequested := by
  cases hstep with
  | flushRequest => exact Nat.le_refl _
  | move hmove =>
      rw [hpc] at hmove
      cases hmove
  | flushLeft hleft | setLevel _ hleft => simp [hpc] at hleft
  | _ => simp_all

/-- A flush keeps its request, or has just made it. -/
theorem Next.target? {pc next : ThreadPc} (hnext : Next conf s t pc next) {target : ℕ}
    {before : List RecordId} (h : next.target? = some (target, before)) :
    pc.target? = some (target, before) ∨
      pc = .flushRequest before ∧ target = s.flushRequested + 1 := by
  cases hnext with
  | move hmove =>
      cases hmove with
      | flushWait => exact .inl h
      | _ => contradiction
  | flushRequest =>
      obtain ⟨rfl, rfl⟩ := Prod.mk.inj (Option.some.inj h)
      exact .inr ⟨rfl, rfl⟩
  | wakeFlush => exact .inl h
  | _ => contradiction

/-- A flush leaves when its request is complete. -/
theorem Next.leaving {pc : ThreadPc} {target : ℕ} {before : List RecordId}
    (hnext : Next conf s t pc (.flushLeave target before)) : target ≤ s.flushCompleted := by
  cases hnext with
  | move hmove =>
      cases hmove with
      | flushWait hle => exact hle

theorem Served.thread {target : ℕ} (h : Served conf s target r) (hstep : ThreadStep conf s t s') :
    Served conf s' target r := by
  refine ⟨fun hle => ?_, fun requested hw hle => ?_, fun requested hc hle => ?_,
    fun requested hc hle => ?_⟩
  · exact (h.done (hstep.served_eq.2 ▸ hle)).thread hstep
  · exact (h.walking requested (hstep.consumer_eq ▸ hw) hle).thread hstep
  · exact (h.taken requested (hstep.consumer_eq ▸ hc) hle).thread hstep
  · exact (h.flushed requested (hstep.consumer_eq ▸ hc) hle).thread hstep

theorem requested?_of_walking? {consumer : ConsumerPc} {requested : ℕ}
    (h : consumer.walking? = some requested) : consumer.requested? = some requested := by
  cases consumer <;> first | exact h | contradiction

/-- No round has begun that answers a request still to be made. -/
theorem served_of_lt {target : ℕ} (hsound : FlushSound conf s) (hlt : s.flushRequested < target) :
    Served conf s target r := by
  have hround : ∀ requested, s.consumer.requested? = some requested → ¬ target ≤ requested :=
    fun requested hr hle =>
      Nat.lt_irrefl _ (Nat.lt_of_le_of_lt (Nat.le_trans hle (hsound.round requested hr).2) hlt)
  refine ⟨fun hle => ?_, fun requested hw hle => ?_, fun requested hc hle => ?_,
    fun requested hc hle => ?_⟩
  · exact absurd (Nat.le_trans hle hsound.bounded) (Nat.not_le_of_lt hlt)
  · exact absurd hle (hround requested (requested?_of_walking? hw))
  · exact absurd hle (hround requested (by rw [hc]; rfl))
  · exact absurd hle (hround requested (by rw [hc]; rfl))

theorem FlushSound.thread (h : FlushSound conf s) (hstep : ThreadStep conf s t s') :
    FlushSound conf s' := by
  have hcompleted := hstep.served_eq.2
  have hrequested := hstep.requested_le
  refine ⟨?_, fun requested hr => ?_, fun other target before hb => ?_,
    fun other target before hb => ?_⟩
  · rw [hcompleted]
    exact Nat.le_trans h.bounded hrequested
  · rw [hstep.consumer_eq] at hr
    rw [hcompleted]
    exact (h.round requested hr).imp_right fun hle => Nat.le_trans hle hrequested
  · by_cases heq : other = t
    · subst heq
      rcases hstep.next.target? hb with hold | ⟨hpc, rfl⟩
      · obtain ⟨hle, hserved⟩ := h.served _ target before hold
        exact ⟨Nat.le_trans hle hrequested, fun r hr => (hserved r hr).thread hstep⟩
      · refine ⟨hstep.requested_succ hpc, fun r _ => ?_⟩
        exact (served_of_lt h (Nat.lt_succ_self _)).thread hstep
    · obtain ⟨hle, hserved⟩ := h.served other target before (hstep.pc_of_ne heq ▸ hb)
      exact ⟨Nat.le_trans hle hrequested, fun r hr => (hserved r hr).thread hstep⟩
  · rw [hcompleted]
    by_cases heq : other = t
    · subst heq
      exact (hb ▸ hstep.next).leaving
    · exact h.leaving other target before (hstep.pc_of_ne heq ▸ hb)

/-! ## Steps of the consumer -/

/-- Where a step of the consumer takes a flush round. -/
inductive ConsumerStep.Serving (conf : Sealed) (s s' : State) : Prop
  | start (hidle : s.consumer.requested? = none)
      (hc' : s'.consumer = .pass (.flush s.flushRequested) Cursor.first)
      (hcompleted : s'.flushCompleted = s.flushCompleted)
  | walk (hidle : s.consumer.requested? = s.consumer.walking?)
      (hidle' : s'.consumer.requested? = s'.consumer.walking?)
      (hwalking : s'.consumer.walking? = s.consumer.walking?)
      (hcompleted : s'.flushCompleted = s.flushCompleted)
  | passed (requested : ℕ) (hc : s.consumer = .pass (.flush requested) .done)
      (hc' : s'.consumer = .flushSinks requested)
      (hcompleted : s'.flushCompleted = s.flushCompleted)
  | flushed (requested : ℕ) (hc : s.consumer = .flushSinks requested)
      (hc' : s'.consumer = .completeFlush requested) (hout : s'.out = s.out ++ flushEvents conf)
      (hcompleted : s'.flushCompleted = s.flushCompleted)
  | complete (requested : ℕ) (hc : s.consumer = .completeFlush requested)
      (hc' : s'.consumer = .sampleTicket) (hcompleted : s'.flushCompleted = requested)

theorem request?_notDrained (round : Round) : round.notDrained.request? = round.request? := by
  cases round <;> rfl

theorem ConsumerStep.requested_eq (hstep : ConsumerStep conf s s') :
    s'.flushRequested = s.flushRequested := by
  cases hstep with
  | repost =>
      obtain ⟨registry, hr⟩ := State.publishReadyBit_eq s _
      rw [hr]
  | _ => rfl

theorem ConsumerStep.serving (hstep : ConsumerStep conf s s') :
    ConsumerStep.Serving conf s s' := by
  cases hstep with
  | startFlush hc => exact .start (by rw [hc]; rfl) rfl rfl
  | flushSinks hc => exact .flushed _ hc rfl rfl rfl
  | completeFlush hc => exact .complete _ hc rfl rfl
  | passDone hc =>
      rename_i round
      cases round with
      | flush requested => exact .passed requested hc rfl rfl
      | ready seq allDrained => exact .walk (by rw [hc]; rfl) rfl (by rw [hc]; rfl) rfl
      | final allDrained =>
          cases allDrained <;> exact .walk (by rw [hc]; rfl) rfl (by rw [hc]; rfl) rfl
  | consume hc =>
      have hidle : s.consumer.requested? = s.consumer.walking? := by
        rw [hc]
        rfl
      exact .walk hidle hidle rfl rfl
  | repost hc =>
      obtain ⟨registry, hr⟩ := State.publishReadyBit_eq s _
      refine .walk (by rw [hc]; rfl) rfl ?_ (by rw [hr])
      rw [hc]
      exact request?_notDrained _
  | remarkLost hc =>
      exact .walk (by rw [hc]; rfl) rfl (by rw [hc]; exact request?_notDrained _) rfl
  | secondEmpty hc =>
      rename_i p _
      cases p <;> exact .walk (by rw [hc]; rfl) rfl (by rw [hc]; rfl) rfl
  | sampleTicket hc | noFlush hc | stop hc | sleep hc | again hc | awake hc | finalFlush hc
  | singleVisit hc | singleSkip hc | countFlush hc | countWords hc | takeWord hc | wordsDone hc
  | bitsDone hc | bitVisit hc | slotVisit hc | slotsDone hc | readTail hc | consumed hc
  | firstEmpty hc | firstFilled hc | clearEnqueued hc | secondFilled hc | remarkWon hc
  | isRetired hc | notRetired hc | markFree hc | pushFree hc =>
      exact .walk (by rw [hc]; rfl) rfl (by rw [hc]; rfl) rfl

/-- A flush pass takes no words. -/
theorem not_passes_of_walking {requested : ℕ} {p : ProducerId} (hpass : PassSound s)
    (hw : s.consumer.walking? = some requested) : ¬ Passes s p := by
  rintro ⟨round, pages, words, i, -, -, hc, -⟩
  have hsuits := hpass.suits
  rw [hc] at hsuits hw
  cases round with
  | flush requested' => exact hsuits requested' rfl
  | _ => contradiction

theorem Served.consumer {target : ℕ} (hown : Ownership conf s) (hmakings : Makings conf s)
    (hpass : PassSound s) (hpublished : Published s r) (h : Served conf s target r)
    (hstep : ConsumerStep conf s s') : Served conf s' target r := by
  have hdone : s'.flushCompleted = s.flushCompleted → target ≤ s'.flushCompleted →
      Secured conf s' r := fun heq hle => (h.done (heq ▸ hle)).consumer hstep
  rcases hstep.serving with ⟨-, hc', hcompleted⟩ | ⟨hidle, hidle', hwalking, hcompleted⟩ |
    ⟨answered, hc, hc', hcompleted⟩ | ⟨answered, hc, hc', hout, hcompleted⟩ |
    ⟨answered, hc, hc', hcompleted⟩
  · refine ⟨hdone hcompleted, fun _ _ _ => covered_first hc', ?_, ?_⟩ <;>
      (intro _ hc; rw [hc'] at hc; contradiction)
  · refine ⟨hdone hcompleted, fun requested hw hle => ?_, ?_, ?_⟩
    · rw [hwalking] at hw
      exact ((h.walking requested hw hle).consumer hown hmakings hpass hpublished hstep).resolve_right
        (not_passes_of_walking hpass hw)
    all_goals
      intro requested hc
      rw [hc] at hidle'
      contradiction
  · refine ⟨hdone hcompleted, ?_, fun requested hc'' hle => ?_, ?_⟩
    · intro _ hw
      rw [hc'] at hw
      contradiction
    · obtain rfl : answered = requested := by
        rw [hc'] at hc''
        exact ConsumerPc.flushSinks.inj hc''
      exact ((h.walking answered (by rw [hc]; rfl) hle).done hc).consumer hstep
    · intro _ hc
      rw [hc'] at hc
      contradiction
  · refine ⟨hdone hcompleted, ?_, ?_, fun requested hc'' hle => ?_⟩
    · intro _ hw
      rw [hc'] at hw
      contradiction
    · intro _ hc
      rw [hc'] at hc
      contradiction
    · obtain rfl : answered = requested := by
        rw [hc'] at hc''
        exact ConsumerPc.completeFlush.inj hc''
      refine ⟨(h.taken answered hc hle).consumer hstep, fun sink hsink => ?_⟩
      rw [hout]
      exact flushedAfter_flushEvents s.out hsink
  · refine ⟨fun hle => ?_, ?_, ?_, ?_⟩
    · exact (h.flushed answered hc (hcompleted ▸ hle)).consumer hstep
    all_goals
      intro _ hw
      rw [hc'] at hw
      contradiction

theorem ConsumerStep.completed_le (h : FlushSound conf s) (hstep : ConsumerStep conf s s') :
    s.flushCompleted ≤ s'.flushCompleted := by
  rcases hstep.serving with ⟨-, -, heq⟩ | ⟨-, -, -, heq⟩ | ⟨_, -, -, heq⟩ | ⟨_, -, -, -, heq⟩ |
    ⟨requested, hc, -, heq⟩
  · exact Nat.le_of_eq heq.symm
  · exact Nat.le_of_eq heq.symm
  · exact Nat.le_of_eq heq.symm
  · exact Nat.le_of_eq heq.symm
  · rw [heq]
    exact (h.round requested (by rw [hc]; rfl)).1

theorem ConsumerStep.round (h : FlushSound conf s) (hstep : ConsumerStep conf s s') :
    s'.flushCompleted ≤ s'.flushRequested ∧
      ∀ requested, s'.consumer.requested? = some requested →
        s'.flushCompleted ≤ requested ∧ requested ≤ s'.flushRequested := by
  rw [hstep.requested_eq]
  rcases hstep.serving with ⟨-, hc', heq⟩ | ⟨hidle, hidle', hwalking, heq⟩ |
    ⟨answered, hc, hc', heq⟩ | ⟨answered, hc, hc', -, heq⟩ | ⟨answered, hc, hc', heq⟩
  · rw [hc', heq]
    refine ⟨h.bounded, fun requested hr => ?_⟩
    obtain rfl := Option.some.inj hr
    exact ⟨h.bounded, Nat.le_refl _⟩
  · rw [hidle', hwalking, ← hidle, heq]
    exact ⟨h.bounded, h.round⟩
  · rw [hc', heq]
    refine ⟨h.bounded, fun requested hr => ?_⟩
    obtain rfl := Option.some.inj hr
    exact h.round _ (by rw [hc]; rfl)
  · rw [hc', heq]
    refine ⟨h.bounded, fun requested hr => ?_⟩
    obtain rfl := Option.some.inj hr
    exact h.round _ (by rw [hc]; rfl)
  · rw [hc', heq]
    exact ⟨(h.round answered (by rw [hc]; rfl)).2, nofun⟩

theorem FlushSound.consumer (hs : (handoff conf).Reachable s) (h : FlushSound conf s)
    (hstep : ConsumerStep conf s s') : FlushSound conf s' := by
  obtain ⟨hbounded, hround⟩ := hstep.round h
  refine ⟨hbounded, hround, fun t target before hb => ?_, fun t target before hb => ?_⟩
  · rw [hstep.pc_eq] at hb
    obtain ⟨hle, hserved⟩ := h.served t target before hb
    refine ⟨hstep.requested_eq ▸ hle, fun r hr => ?_⟩
    have hledger := ledger_of_reachable hs
    have hreturned := hledger.before t before (before?_of_target? hb) r hr
    exact (hserved r hr).consumer (ownership_of_reachable hs) (makings_of_reachable hs)
      (passSound_of_reachable hs) (hledger.returned r hreturned) hstep
  · rw [hstep.pc_eq] at hb
    exact Nat.le_trans (h.leaving t target before hb) (hstep.completed_le h)

theorem flushSound_of_reachable (h : (handoff conf).Reachable s) : FlushSound conf s := by
  refine h.invariant ?_ fun s a s' hs hf hstep => ?_
  · rintro _ ⟨level, rfl⟩
    exact ⟨Nat.le_refl _, nofun, nofun, nofun⟩
  · rcases step_cases hstep with ⟨t, hthread⟩ | hconsumer
    · exact hf.thread hthread
    · exact hf.consumer hs hconsumer

/-! ## Whole runs -/

theorem Delivered.thread (h : Delivered conf s r) (hstep : ThreadStep conf s t s') :
    Delivered conf s' r := by
  obtain ⟨record, channel, hrecord, hchannel, hwrites, hflushed⟩ := h
  rw [← hstep.served_eq.1] at hwrites hflushed
  exact ⟨record, channel, hstep.published hrecord, hchannel, hwrites, hflushed⟩

/-- A flush goes on with the list it was called with. -/
theorem step_before? {a : Action} (h : step conf s a = some s') (hcall : ∀ call, a ≠ .call t call)
    {before : List RecordId} (hb : (s'.pc t).before? = some before) :
    (s.pc t).before? = some before := by
  by_cases ht : a.thread? = some t
  · cases a with
    | call other call =>
        obtain rfl := Option.some.inj ht
        exact absurd rfl (hcall call)
    | produce other outcome =>
        obtain rfl := Option.some.inj ht
        simp only [step] at h
        split at h
        · rename_i channel p hpc
          obtain rfl := Option.some.inj h
          rcases (produceStep_cases hpc outcome).next.before? hb with hold | ⟨hidle, -⟩
          · exact hold
          · rw [hpc] at hidle
            contradiction
        · contradiction
    | thread other =>
        obtain rfl := Option.some.inj ht
        rcases (threadStep_cases h).next.before? hb with hold | ⟨hidle, -⟩
        · exact hold
        · simp [step, threadStep, hidle] at h
    | consumer => contradiction
  · rwa [step_pc_of_ne h ht] at hb

theorem run_before? {actions : List Action} (h : (handoff conf).run s actions = some s')
    (hcalls : ∀ call, .call t call ∉ actions) {before : List RecordId}
    (hb : (s'.pc t).before? = some before) : (s.pc t).before? = some before := by
  induction actions generalizing s with
  | nil =>
      obtain rfl : s = s' := by simpa [Library.System.run] using h
      exact hb
  | cons a actions ih =>
      obtain ⟨next, hnext, hrest⟩ := Option.bind_eq_some_iff.mp h
      refine step_before? hnext (fun call heq => ?_)
        (ih hrest fun call hmem => hcalls call (List.mem_cons_of_mem _ hmem))
      exact hcalls call (heq ▸ List.mem_cons_self)

theorem run_completed_le {actions : List Action} (hs : (handoff conf).Reachable s)
    (h : (handoff conf).run s actions = some s') : s.flushCompleted ≤ s'.flushCompleted := by
  induction actions generalizing s with
  | nil =>
      obtain rfl : s = s' := by simpa [Library.System.run] using h
      exact Nat.le_refl _
  | cons a actions ih =>
      obtain ⟨next, hnext, hrest⟩ := Option.bind_eq_some_iff.mp h
      refine Nat.le_trans ?_ (ih (hs.step hnext) hrest)
      rcases step_cases hnext with ⟨t, hthread⟩ | hconsumer
      · exact Nat.le_of_eq hthread.served_eq.2.symm
      · exact hconsumer.completed_le (flushSound_of_reachable hs)

/-- What `flush_backend` promises, in whatever way the run goes on. -/
structure FlushContract (conf : Sealed) (s₀ : State) : Prop where
  bounded : s₀.flushCompleted ≤ s₀.flushRequested
  monotone : ∀ actions s, (handoff conf).run s₀ actions = some s →
    s₀.flushCompleted ≤ s.flushCompleted
  complete : ∀ t actions s s' target before,
    (handoff conf).run s₀ (.call t .flush :: actions) = some s →
    (∀ call, .call t call ∉ actions) →
    s.pc t = .flushLeave target before → step conf s (.thread t) = some s' →
    ∀ r ∈ s₀.returned, Delivered conf s' r

/-- A flush that was admitted returns when all that was logged before is written and flushed. -/
theorem flushContract_of_reachable (h : (handoff conf).Reachable s) : FlushContract conf s := by
  refine
    { bounded := (flushSound_of_reachable h).bounded
      monotone := fun actions s' => run_completed_le h
      complete := ?_ }
  intro t actions after last target before hrun hcalls hpc hreturn r hr
  have hafter := h.run hrun
  obtain ⟨called, hcall, hrest⟩ := Option.bind_eq_some_iff.mp hrun
  have hb : (called.pc t).before? = some before :=
    run_before? hrest hcalls (by rw [hpc]; rfl)
  have hlist : before = s.returned := by
    simp only [handoff, step] at hcall
    split at hcall
    · obtain rfl := Option.some.inj hcall
      rw [State.setPc_pc_self] at hb
      exact (Option.some.inj hb).symm
    · contradiction
  have hsound := flushSound_of_reachable hafter
  have hserved := (hsound.served t target before (by rw [hpc]; rfl)).2 r (hlist ▸ hr)
  exact ((hserved.done (hsound.leaving t target before hpc)).delivered hafter).thread
    (threadStep_cases hreturn)

/-- Another thread requests a flush, the consumer runs, and the thread leaves its wait. -/
def demoFlush : List Action :=
  List.replicate 5 (.thread 1) ++ List.replicate 37 .consumer ++ [.thread 1]

/-- The flush of another thread returns with the record of the exited one delivered. -/
theorem flushContract_after_exit :
    ∃ s last s' : State, s.returned = [⟨.pooled .normal 0, 0⟩] ∧ FlushContract demo s ∧
      (handoff demo).run s (.call 1 .flush :: demoFlush) = some last ∧
      step demo last (.thread 1) = some s' ∧ Delivered demo s' ⟨.pooled .normal 0, 0⟩ := by
  have hlogged : ((handoff demo).run (.started demo fun _ => .info) demoLogged).map
      (fun s => s.returned) = some [⟨.pooled .normal 0, 0⟩] := by
    decide +kernel
  have hflush : (((handoff demo).run (.started demo fun _ => .info) demoLogged).bind fun s =>
      (handoff demo).run s (.call 1 .flush :: demoFlush)).map (fun s => s.pc 1) =
        some (.flushLeave 1 [⟨.pooled .normal 0, 0⟩]) := by
    decide +kernel
  obtain ⟨s, hs, hreturned⟩ := Option.map_eq_some_iff.mp hlogged
  obtain ⟨last, hlast, hpc⟩ := Option.map_eq_some_iff.mp hflush
  rw [hs, Option.bind_some] at hlast
  have hcontract := flushContract_of_reachable (.run (.initial ⟨_, rfl⟩) hs)
  have hreturn : step demo last (.thread 1) =
      some ({ last with activeFlushers := last.activeFlushers - 1 }.setPc 1 .idle) := by
    simp only [step, threadStep, hpc]
  refine ⟨s, last, _, hreturned, hcontract, hlast, hreturn, ?_⟩
  exact hcontract.complete 1 demoFlush last _ 1 _ hlast (by simp [demoFlush]) hpc hreturn _
    (hreturned ▸ List.mem_singleton.mpr rfl)

end Unlog.Handoff
