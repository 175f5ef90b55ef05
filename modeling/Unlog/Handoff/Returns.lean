import Unlog.Handoff.Churn
import Unlog.Handoff.Service
import Unlog.Library.Fair

/-! # Calls return

A call of the public interface makes a few accesses of its own and waits for nobody, except that a
flush waits for the consumer and a shutdown for the flushers and the consumer. -/

namespace Unlog.Handoff

open Library

variable {conf : Sealed} {s s' : State} {t : ℕ} {pages : Pages}

/-! ## Own accesses -/

/-- The accesses a thread has left in its call, at most; a shutdown is not counted. -/
def ThreadPc.ownSteps : ThreadPc → ℕ
  | .gate _ _ => 11
  | .obtain _ => 10
  | .assertOwner _ _ => 9
  | .claimOwner _ _ => 8
  | .acquire _ (.log _) => 8
  | .produce _ _ => 7
  | .countEmitted _ true => 5
  | .countEmitted _ false => 4
  | .countTruncated _ => 4
  | .markEnqueued _ => 3
  | .publishBit _ => 2
  | .wake (.flush _ _) => 3
  | .wake _ => 1
  | .countDropped _ => 1
  | .retire _ _ => 3
  | .publishRetired _ _ => 2
  | .prewarmLifecycle => 6
  | .prewarmState => 5
  | .prewarmThread .normal => 4
  | .acquire .normal .prewarm => 3
  | .prewarmThread .huge => 2
  | .acquire .huge .prewarm => 1
  | .flushState _ => 7
  | .flushAdmit _ => 6
  | .flushLifecycle _ => 5
  | .flushRefuse => 1
  | .flushRequest _ => 4
  | .flushWait _ _ => 2
  | .flushLeave _ _ => 1
  | .setRouteLevel _ _ => 1
  | .setGlobalLevel _ => 1
  | _ => 0

/-- Where a thread waits, or is in a shutdown. -/
def ThreadPc.waits : ThreadPc → Bool
  | .flushWait _ _ => true
  | pc => pc.final?.isSome

/-- The next action of a thread that is in a call; `outcome` is what its formatter does. -/
def ThreadPc.turn (t : ℕ) (outcome : Outcome) : ThreadPc → Action
  | .produce _ _ => .produce t outcome
  | _ => .thread t

/-- Every access of a thread in a call brings the end of the call nearer. -/
theorem Next.ownSteps_lt {pc next : ThreadPc} (hnext : Next conf s t pc next) (hpc : pc ≠ .idle)
    (hfinal : pc.final? = none) : next.ownSteps < pc.ownSteps := by
  cases hnext with
  | callLog | callUnchecked | callRelease | callNothing | callPrewarm | callFlush | callRouteLevel
  | callGlobalLevel | callDestroy => exact absurd rfl hpc
  | move hmove =>
      cases hmove with
      | exhausted =>
          rename_i other purpose _ _
          cases purpose with
          | log => simp [ThreadPc.ownSteps]
          | prewarm => cases other <;> simp [ThreadPc.ownSteps]
      | prewarmAcquire => rename_i other _; cases other <;> simp [ThreadPc.ownSteps]
      | destroyAgain | awaitFlushers | join => contradiction
      | _ => simp [ThreadPc.ownSteps]
  | destroy | requestStop | joined | resetSinks | finishDestroy | wakeStop => contradiction
  | publishCounted => rename_i truncated; cases truncated <;> simp [ThreadPc.ownSteps]
  | _ => simp [ThreadPc.ownSteps]

theorem Next.final?_none {pc next : ThreadPc} (hnext : Next conf s t pc next) (hpc : pc ≠ .idle)
    (hfinal : pc.final? = none) : next.final? = none := by
  cases hnext with
  | callDestroy => exact absurd rfl hpc
  | move hmove =>
      cases hmove with
      | destroyAgain | awaitFlushers | join => contradiction
      | _ => rfl
  | destroy | requestStop | joined | resetSinks | finishDestroy | wakeStop => contradiction
  | _ => rfl

theorem ownSteps_le (pc : ThreadPc) : pc.ownSteps ≤ 11 := by
  cases pc with
  | acquire other purpose =>
      cases purpose with
      | log => simp [ThreadPc.ownSteps]
      | prewarm => cases other <;> simp [ThreadPc.ownSteps]
  | prewarmThread other => cases other <;> simp [ThreadPc.ownSteps]
  | wake waker => cases waker <;> simp [ThreadPc.ownSteps]
  | countEmitted record truncated => cases truncated <;> simp [ThreadPc.ownSteps]
  | _ => simp [ThreadPc.ownSteps]

/-! ## A thread is never stuck -/

/-- A log call names a channel of the runtime. -/
def Action.Known (conf : Sealed) : Action → Prop
  | .call _ (.log channel _) => channel < conf.channels.length
  | .call _ (.logUnchecked channel) => channel < conf.channels.length
  | _ => True

/-- The channel a thread is about to look up. -/
def ThreadPc.looksUp? : ThreadPc → Option ℕ
  | .gate channel _ => some channel
  | .obtain channel => some channel
  | _ => none

def Known (conf : Sealed) (s : State) : Prop :=
  ∀ t channel, (s.pc t).looksUp? = some channel → channel < conf.channels.length

theorem Next.looksUp? {pc next : ThreadPc} (hnext : Next conf s t pc next) (hpc : pc ≠ .idle)
    {channel : ℕ} (h : next.looksUp? = some channel) : pc.looksUp? = some channel := by
  cases hnext with
  | move hmove =>
      cases hmove with
      | gate => exact h
      | _ => contradiction
  | callLog | callUnchecked => exact absurd rfl hpc
  | _ => contradiction

theorem known_step {a : Action} (h : Known conf s) (ha : a.Known conf)
    (hstep : step conf s a = some s') : Known conf s' := by
  intro t channel hlooks
  by_cases ht : a.thread? = some t
  · cases step_kind hstep with
    | call other call hidle =>
        obtain rfl := Option.some.inj ht
        rw [State.setPc_pc_self] at hlooks
        cases call with
        | log | logUnchecked =>
            obtain rfl := Option.some.inj hlooks
            exact ha
        | release pages =>
            simp only [Call.entry] at hlooks
            split at hlooks <;> contradiction
        | _ => contradiction
    | thread other hother hbusy hthread =>
        obtain rfl := Option.some.inj (ht.symm.trans hother)
        exact h t channel (hthread.next.looksUp? hbusy hlooks)
    | consumer => contradiction
  · exact h t channel (step_pc_of_ne hstep ht ▸ hlooks)

theorem known_of_reachable (h : (handoff conf).ReachableWhere (fun _ a => a.Known conf) s) :
    Known conf s := by
  refine h.invariant ?_ fun s a s' _ hk ha hstep => known_step hk ha hstep
  rintro _ ⟨level, rfl⟩
  exact nofun

theorem acquireStep_isSome (hown : Ownership conf s) (purpose : Purpose) :
    (acquireStep conf s t pages purpose).isSome = true := by
  simp only [acquireStep]
  split
  · rename_i hhead
    obtain ⟨list, hlist⟩ := (hown.registry pages).freeing.freeList
    obtain ⟨rest, rfl, -⟩ := hlist.chain.pop hhead
    have hlt := (hlist.sound _ List.mem_cons_self).1
    rw [(hown.registry pages).layout.slots_eq, if_pos hlt]
    rfl
  · split <;> rfl

/-- A thread in a call that does not wait has a next access. -/
theorem thread_ready (hown : Ownership conf s) (hknown : Known conf s) (hpc : s.pc t ≠ .idle)
    (hwaits : (s.pc t).waits = false) (outcome : Outcome) :
    (step conf s ((s.pc t).turn t outcome)).isSome = true := by
  cases hc : s.pc t with
  | idle => exact absurd hc hpc
  | produce channel p =>
      simp only [ThreadPc.turn, step, hc]
      rfl
  | obtain channel =>
      have hlt := hknown t channel (by rw [hc]; rfl)
      simp only [ThreadPc.turn, step, threadStep, hc, List.getElem?_eq_getElem hlt]
      generalize conf.channels[channel] = found
      obtain ⟨mode, pages, sink⟩ := found
      cases mode with
      | threadsafe | singleThreaded =>
          dsimp only
          split <;> rfl
  | acquire pages purpose =>
      simp only [ThreadPc.turn, step, threadStep, hc]
      exact acquireStep_isSome hown purpose
  | assertOwner channel pages =>
      simp only [ThreadPc.turn, step, threadStep, hc]
      split <;> rfl
  | claimOwner channel pages =>
      simp only [ThreadPc.turn, step, threadStep, hc]
      split <;> rfl
  | markEnqueued record =>
      simp only [ThreadPc.turn, step, threadStep, hc]
      split <;> rfl
  | retire pages index =>
      simp only [ThreadPc.turn, step, threadStep, hc]
      split <;> rfl
  | prewarmThread pages =>
      simp only [ThreadPc.turn, step, threadStep, hc]
      split <;> rfl
  | setRouteLevel channel level | setGlobalLevel level =>
      simp only [ThreadPc.turn, step, threadStep, hc]
      split <;> rfl
  | flushWait | destroy | awaitFlushers | requestStop | join | joined | resetSinks
  | finishDestroy =>
      rw [hc] at hwaits
      contradiction
  | wake waker =>
      simp only [ThreadPc.turn, step, threadStep, hc]
      rfl
  | _ =>
      simp only [ThreadPc.turn, step, threadStep, hc]
      rfl

/-! ## Wait-freedom -/

/-- A thread that makes no new call takes no more than its own accesses. -/
theorem ownSteps_of_run {actions : List Action} (hfinal : (s.pc t).final? = none)
    (hrun : (handoff conf).run s actions = some s') (hcalls : ∀ call, .call t call ∉ actions) :
    (s'.pc t).final? = none ∧
      (s'.pc t).ownSteps + actions.countP (fun a => a.thread? == some t) ≤ (s.pc t).ownSteps := by
  induction actions generalizing s with
  | nil =>
      obtain rfl : s = s' := by simpa [System.run] using hrun
      exact ⟨hfinal, by simp⟩
  | cons a actions ih =>
      obtain ⟨next, hnext, hrest⟩ := Option.bind_eq_some_iff.mp hrun
      have hmore := fun h => ih h hrest fun call hmem => hcalls call (List.mem_cons_of_mem _ hmem)
      by_cases ht : a.thread? = some t
      · rw [List.countP_cons_of_pos (by simpa using ht)]
        cases step_kind hnext with
        | call other call =>
            obtain rfl := Option.some.inj ht
            exact absurd List.mem_cons_self (hcalls call)
        | thread other hother hbusy hthread =>
            obtain rfl := Option.some.inj (ht.symm.trans hother)
            have hlt := hthread.next.ownSteps_lt hbusy hfinal
            refine (hmore (hthread.next.final?_none hbusy hfinal)).imp_right fun hle => ?_
            omega
        | consumer => contradiction
      · rw [List.countP_cons_of_neg (by simpa using ht)]
        have hpc := step_pc_of_ne hnext ht
        rw [hpc] at hmore
        exact hmore hfinal

/-- Where a critical section is one access, no call but a flush or a shutdown waits, and each is over
after eleven accesses of its own, whatever the other threads and the consumer do. -/
structure WaitFree (conf : Sealed) (s : State) : Prop where
  ready : ∀ t outcome, s.pc t ≠ .idle → (s.pc t).waits = false →
    (step conf s ((s.pc t).turn t outcome)).isSome = true
  bounded : ∀ t actions s', (s.pc t).final? = none → (handoff conf).run s actions = some s' →
    (∀ call, .call t call ∉ actions) → actions.countP (fun a => a.thread? == some t) ≤ 11
  returned : ∀ t actions s', (s.pc t).final? = none → (handoff conf).run s actions = some s' →
    (∀ call, .call t call ∉ actions) →
    (s.pc t).ownSteps ≤ actions.countP (fun a => a.thread? == some t) → s'.pc t = .idle

theorem idle_of_ownSteps {pc : ThreadPc} (hfinal : pc.final? = none) (h : pc.ownSteps = 0) :
    pc = .idle := by
  cases pc with
  | idle => rfl
  | acquire other purpose =>
      cases purpose with
      | log => contradiction
      | prewarm => cases other <;> contradiction
  | prewarmThread other => cases other <;> contradiction
  | wake waker => cases waker <;> contradiction
  | countEmitted record truncated => cases truncated <;> contradiction
  | _ => contradiction

theorem waitFree_of_reachable
    (h : (handoff conf).ReachableWhere (fun _ a => a.Known conf) s) : WaitFree conf s where
  ready t outcome hpc hwaits :=
    thread_ready (ownership_of_reachable h.reachable) (known_of_reachable h) hpc hwaits outcome
  bounded t actions s' hfinal hrun hcalls := by
    have hle := (ownSteps_of_run hfinal hrun hcalls).2
    have hbound := ownSteps_le (s.pc t)
    omega
  returned t actions s' hfinal hrun hcalls hcount := by
    obtain ⟨hfinal', hle⟩ := ownSteps_of_run hfinal hrun hcalls
    exact idle_of_ownSteps hfinal' (by omega)

/-! ## Fair behaviours -/

/-- No access of the thread is put off for ever, inside the callback of `produce` and outside it. -/
structure FairTo (conf : Sealed) (σ : ℕ → State) (t : ℕ) : Prop where
  thread : (handoff conf).WeaklyFair σ (· = .thread t)
  produce : (handoff conf).WeaklyFair σ fun a => ∃ outcome, a = .produce t outcome

variable {σ : ℕ → State} {pc : ThreadPc}

theorem FairTo.shift (h : FairTo conf σ t) (n : ℕ) : FairTo conf (fun k => σ (n + k)) t :=
  ⟨h.thread.shift n, h.produce.shift n⟩

/-- The thread is done, or nearer to the end of its call. -/
def Nearer (t n : ℕ) (s : State) : Prop :=
  s.pc t = .idle ∨ (s.pc t).final? = none ∧ (s.pc t).ownSteps < n

/-- With an action of its own, a thread in a call comes nearer to the end. -/
theorem nearer_own {a : Action} (hpc : s.pc t = pc) (hidle : pc ≠ .idle)
    (hfinal : pc.final? = none) (ha : a.thread? = some t) (hstep : step conf s a = some s') :
    Nearer t pc.ownSteps s' := by
  cases step_kind hstep with
  | call other call hother =>
      obtain rfl := Option.some.inj ha
      exact absurd (hpc.symm.trans hother) hidle
  | thread other hother _ hthread =>
      obtain rfl := Option.some.inj (ha.symm.trans hother)
      have hnext := hthread.next
      rw [hpc] at hnext
      exact .inr ⟨hnext.final?_none hidle hfinal, hnext.ownSteps_lt hidle hfinal⟩
  | consumer => contradiction

/-- Whoever steps, a thread in a call comes nearer to the end or stays where it is. -/
theorem nearer_step {a : Action} (hpc : s.pc t = pc) (hidle : pc ≠ .idle)
    (hfinal : pc.final? = none) (hstep : step conf s a = some s') :
    Nearer t pc.ownSteps s' ∨ s'.pc t = pc := by
  by_cases ht : a.thread? = some t
  · exact .inl (nearer_own hpc hidle hfinal ht hstep)
  · exact .inr ((step_pc_of_ne hstep ht).trans hpc)

/-- Where its own access is not disabled, a thread leaves its place. -/
theorem leadsTo_nearer {I R : State → Prop} {ok : Action → Prop}
    (h : (handoff conf).Behaviour ok σ) (hI : ∀ k, I (σ k)) (hfair : FairTo conf σ t)
    (hidle : pc ≠ .idle) (hfinal : pc.final? = none)
    (hkeep : ∀ s a s', I s → s.pc t = pc → R s → ok a → step conf s a = some s' →
      s'.pc t = pc → R s')
    (hready : ∀ s outcome, I s → s.pc t = pc → R s →
      (step conf s (pc.turn t outcome)).isSome = true) :
    LeadsTo σ (fun s => s.pc t = pc ∧ R s) (Nearer t pc.ownSteps) := by
  have hmoves : (handoff conf).WeaklyFair σ fun a => ∃ outcome, a = pc.turn t outcome := by
    have houtcome : Nonempty Outcome := ⟨.written⟩
    cases pc with
    | produce channel p => exact hfair.produce
    | _ => simpa [ThreadPc.turn, houtcome] using hfair.thread
  refine h.leadsTo_of_size (fun _ => 0) hI hmoves ?_ ?_ ?_
  · intro s hs ⟨hpc, hR⟩
    exact ⟨_, ⟨.written, rfl⟩, hready s .written hs hpc hR⟩
  · intro s a s' hs ⟨hpc, hR⟩ ha hstep
    rcases nearer_step hpc hidle hfinal hstep with hnearer | hsame
    · exact .inl hnearer
    · exact .inr ⟨⟨hsame, hkeep s a s' hs hpc hR ha hstep hsame⟩, le_rfl⟩
  · rintro s _ s' - ⟨hpc, -⟩ ⟨outcome, rfl⟩ hstep
    exact .inl (nearer_own hpc hidle hfinal (by cases pc <;> rfl) hstep)

/-! ## The consumer goes on -/

/-- The consumer sleeps, and nobody has bumped `wake_seq` since it took its ticket. -/
def Asleep (s : State) : Prop := ∃ seq, s.consumer = .wait seq ∧ s.wakeSeq = seq

theorem not_asleep_of_round {round : Round} (h : s.consumer.round? = some round) : ¬ Asleep s := by
  rintro ⟨seq, hc, -⟩
  rw [hc] at h
  contradiction

/-- An awake consumer has a next access. -/
theorem consumer_ready_of_awake (hs : (handoff conf).Reachable s) (hended : s.consumer ≠ .ended)
    (hawake : ¬ Asleep s) : (step conf s .consumer).isSome = true :=
  consumer_ready hs hended fun seq hc hseq => hawake ⟨seq, hc, hseq⟩

/-- Who can help the consumer on: itself, or a thread that is about to wake it. -/
def Helps (s : State) : Option ℕ → Prop
  | none => ¬ Asleep s
  | some t => Asleep s ∧ ∃ waker, s.pc t = .wake waker

theorem thread_of_wake {waker : Waker} (hpc : s.pc t = .wake waker) :
    step conf s (.thread t) = some (wakeStep s t waker) := by
  simp only [step, threadStep, hpc]

/-- A thread wakes a sleeping consumer, or leaves everybody who can help where he is. -/
theorem ThreadStep.helps (htickets : TicketSound s) (hstep : ThreadStep conf s t s')
    {helper : Option ℕ} (h : Helps s helper) :
    Asleep s ∧ ¬ Asleep s' ∨ Helps s' helper ∧ (Asleep s' ↔ Asleep s) := by
  have hconsumer := hstep.consumer_eq
  rcases hstep.wakeSeq_eq with ⟨-, hwake⟩ | ⟨hpc, hwake⟩
  · have hawake : ¬ Asleep s' := by
      rintro ⟨seq, hc, hseq⟩
      rw [hconsumer] at hc
      have hle := htickets seq true (by rw [hc]; rfl)
      omega
    by_cases hasleep : Asleep s
    · exact .inl ⟨hasleep, hawake⟩
    · cases helper with
      | none => exact .inr ⟨hawake, iff_of_false hawake hasleep⟩
      | some other => exact absurd h.1 hasleep
  · have hiff : Asleep s' ↔ Asleep s := by rw [Asleep, Asleep, hconsumer, hwake]
    refine .inr ⟨?_, hiff⟩
    cases helper with
    | none => exact mt hiff.mp h
    | some other =>
        obtain ⟨hasleep, waker, hother⟩ := h
        have hne : other ≠ t := by
          rintro rfl
          exact hpc waker hother
        exact ⟨hiff.mpr hasleep, waker, (hstep.pc_of_ne hne).trans hother⟩

section Consumer

variable {I P Q : State → Prop} {ok : Action → Prop}

/-- A consumer that is awake on the way comes to the goal, if each access brings it nearer and no
thread takes it further away. -/
theorem leadsTo_of_awake (size : State → ℕ) (h : (handoff conf).Behaviour ok σ)
    (hI : ∀ k, I (σ k)) (hreach : ∀ s, I s → (handoff conf).Reachable s)
    (hconsumer : (handoff conf).WeaklyFair σ (· = .consumer))
    (hawake : ∀ s, I s → P s → s.consumer ≠ .ended ∧ ¬ Asleep s)
    (hthread : ∀ s t s', I s → P s → ThreadStep conf s t s' → Q s' ∨ P s' ∧ size s' ≤ size s)
    (hstep : ∀ s s', I s → P s → ConsumerStep conf s s' → Q s' ∨ P s' ∧ size s' < size s) :
    LeadsTo σ P Q := by
  refine h.leadsTo_of_size size hI hconsumer ?_ ?_ ?_
  · intro s hs hP
    obtain ⟨hended, hasleep⟩ := hawake s hs hP
    exact ⟨.consumer, rfl, consumer_ready_of_awake (hreach s hs) hended hasleep⟩
  · intro s a s' hs hP _ hnext
    rcases step_cases hnext with ⟨t, hthreadStep⟩ | hcons
    · exact hthread s t s' hs hP hthreadStep
    · exact (hstep s s' hs hP hcons).imp_right (And.imp_right Nat.le_of_lt)
  · rintro s _ s' hs hP rfl hnext
    exact hstep s s' hs hP (consumerStep_cases hnext)

open Classical in
/-- The same for a consumer that may be asleep, if somebody is then about to wake it. -/
theorem leadsTo_of_waking (size : State → ℕ) (h : (handoff conf).Behaviour ok σ)
    (hI : ∀ k, I (σ k)) (hreach : ∀ s, I s → (handoff conf).Reachable s)
    (hfair : ∀ t, FairTo conf σ t) (hconsumer : (handoff conf).WeaklyFair σ (· = .consumer))
    (hended : ∀ s, I s → P s → s.consumer ≠ .ended)
    (hwaking : ∀ s, I s → P s → Asleep s → Waking s)
    (hthread : ∀ s a t s', I s → P s → step conf s a = some s' → ThreadStep conf s t s' →
      Q s' ∨ P s' ∧ size s' ≤ size s)
    (hstep : ∀ s s', I s → P s → ConsumerStep conf s s' → Q s' ∨ P s' ∧ size s' < size s) :
    LeadsTo σ P Q := by
  have hturns : ∀ helper : Option ℕ,
      (handoff conf).WeaklyFair σ (· = helper.elim .consumer .thread) := by
    intro helper
    cases helper with
    | none => exact hconsumer
    | some t => exact (hfair t).thread
  -- the wake-up of a sleeping consumer counts as a step towards the goal
  refine h.leadsTo_of_helpful Helps (fun s => 2 * size s + if Asleep s then 1 else 0) hI hturns
    ?_ ?_ ?_ ?_
  · intro s hs hP
    by_cases hasleep : Asleep s
    · obtain ⟨t, waker, hpc⟩ := hwaking s hs hP hasleep
      exact ⟨some t, hasleep, waker, hpc⟩
    · exact ⟨none, hasleep⟩
  · intro s helper hs hP hhelps
    refine ⟨_, rfl, ?_⟩
    cases helper with
    | none => exact consumer_ready_of_awake (hreach s hs) (hended s hs hP) hhelps
    | some t =>
        obtain ⟨-, waker, hpc⟩ := hhelps
        exact Option.isSome_iff_exists.mpr ⟨_, thread_of_wake hpc⟩
  · intro s a s' helper hs hP hhelps _ hnext
    have htickets := ticketSound_of_reachable (hreach s hs)
    rcases step_cases hnext with ⟨t, hthreadStep⟩ | hcons
    · refine (hthread s a t s' hs hP hnext hthreadStep).imp_right fun ⟨hP', hle⟩ => ⟨hP', ?_⟩
      rcases hthreadStep.helps htickets hhelps with ⟨hasleep, hawake⟩ | ⟨hkeep, hiff⟩
      · rw [if_pos hasleep, if_neg hawake]
        exact .inl (by omega)
      · rw [if_congr hiff rfl rfl]
        rcases Nat.lt_or_eq_of_le hle with hlt | heq
        · exact .inl (by omega)
        · exact .inr ⟨hkeep, by omega⟩
    · refine (hstep s s' hs hP hcons).imp_right fun ⟨hP', hlt⟩ => ⟨hP', .inl ?_⟩
      split <;> split <;> omega
  · rintro s _ s' helper hs hP hhelps rfl hnext
    cases helper with
    | none =>
        refine (hstep s s' hs hP (consumerStep_cases hnext)).imp_right fun ⟨hP', hlt⟩ => ⟨hP', ?_⟩
        split <;> split <;> omega
    | some t =>
        obtain ⟨hasleep, waker, hpc⟩ := hhelps
        obtain rfl : wakeStep s t waker = s' :=
          Option.some.inj ((thread_of_wake hpc).symm.trans hnext)
        have hthreadStep : ThreadStep conf s t (wakeStep s t waker) := .wake hpc
        refine (hthread s _ t _ hs hP (thread_of_wake hpc) hthreadStep).imp_right fun ⟨hP', hle⟩ =>
          ⟨hP', ?_⟩
        have hawake : ¬ Asleep (wakeStep s t waker) := by
          obtain ⟨seq, hc, hseq⟩ := hasleep
          rintro ⟨seq', hc', hseq'⟩
          obtain rfl := ConsumerPc.wait.inj ((hthreadStep.consumer_eq ▸ hc').symm.trans hc)
          have hwake := (hthreadStep.wakeSeq_eq.resolve_right fun h => h.1 waker hpc).2
          omega
        rw [if_pos hasleep, if_neg hawake]
        omega

end Consumer

theorem completed_le {a : Action} (hs : (handoff conf).Reachable s)
    (hstep : step conf s a = some s') : s.flushCompleted ≤ s'.flushCompleted := by
  have hrun : (handoff conf).run s [a] = some s' :=
    Option.bind_eq_some_iff.mpr ⟨s', hstep, rfl⟩
  exact run_completed_le hs hrun

/-- A flush that waits is answered. -/
theorem leadsTo_answered {I : State → Prop} {ok : Action → Prop} {n : ℕ}
    {before : List RecordId} (h : (handoff conf).Behaviour ok σ) (hI : ∀ k, I (σ k))
    (hreachable : ∀ s, I s → (handoff conf).Reachable s)
    (hconsumer : (handoff conf).WeaklyFair σ (· = .consumer)) :
    LeadsTo σ (fun s => s.pc t = .flushWait n before)
      fun s => s.pc t = .flushWait n before ∧ n ≤ s.flushCompleted := by
  have hout : ∀ s : State, s.pc t = .flushWait n before ∧ ¬ n ≤ s.flushCompleted →
      Outstanding s t n := fun s ⟨hpc, hnot⟩ =>
    ⟨⟨before, by rw [hpc]; rfl⟩, Nat.lt_of_not_le hnot⟩
  refine .cases (fun s => n ≤ s.flushCompleted) (.of_imp fun _ => id) ?_
  refine leadsTo_of_awake (fun s => s.service conf n) h hI hreachable hconsumer ?_ ?_ ?_
  · intro s hs ⟨hpc, hnot⟩
    have hready := consumer_ready_of_wait (hreachable s hs) hpc (Nat.lt_of_not_le hnot)
    refine ⟨fun hc => ?_, ?_⟩
    · simp [step, consumerStep, hc] at hready
    · rintro ⟨seq, hc, hseq⟩
      simp [step, consumerStep, hc, hseq] at hready
  · intro s other s' hs ⟨hpc, hnot⟩ hthread
    have hpc' : s'.pc t = .flushWait n before := by
      by_cases hother : t = other
      · subst hother
        -- its own turn is disabled
        have hnext := hthread.next
        rw [hpc] at hnext
        generalize s'.pc t = pc' at hnext
        cases hnext with
        | move hmove =>
            cases hmove with
            | flushWait hle => exact absurd hle hnot
      · rw [hthread.pc_of_ne hother, hpc]
    exact .inr ⟨⟨hpc', hthread.served_eq.2 ▸ hnot⟩, hthread.service_eq.le⟩
  · intro s s' hs hwait hcons
    have hpc' := (congrFun hcons.pc_eq t).trans hwait.1
    rcases Nat.lt_or_ge s'.flushCompleted n with hlt | hdone
    · refine .inr ⟨⟨hpc', Nat.not_le_of_lt hlt⟩, ?_⟩
      exact (hcons.service_lt (hreachable s hs) (hout s hwait)).resolve_left (Nat.not_le_of_lt hlt)
    · exact .inl ⟨hpc', hdone⟩

/-- A call on the way is over some day. -/
theorem leadsTo_idle (hstart : (handoff conf).ReachableWhere (fun _ a => a.Known conf) (σ 0))
    (h : (handoff conf).Behaviour (·.Known conf) σ) (hfair : FairTo conf σ t)
    (hconsumer : (handoff conf).WeaklyFair σ (· = .consumer)) :
    LeadsTo σ (fun s => (s.pc t).final? = none) fun s => s.pc t = .idle := by
  have hI := h.reachableWhere hstart
  refine LeadsTo.of_size (fun s => (s.pc t).ownSteps) fun n k ⟨hfinal, hn⟩ => ?_
  generalize hpc : (σ k).pc t = pc at hfinal hn
  change ∃ j, k ≤ j ∧ Nearer t n (σ j)
  by_cases hidle : pc = .idle
  · exact ⟨k, le_rfl, .inl (hpc.trans hidle)⟩
  · by_cases hwait : ∃ target before, pc = .flushWait target before
    · obtain ⟨target, before, rfl⟩ := hwait
      have hanswered : LeadsTo σ (fun s => s.pc t = .flushWait target before)
          fun s => s.pc t = .flushWait target before ∧ target ≤ s.flushCompleted :=
        leadsTo_answered h hI (fun _ hs => hs.reachable) hconsumer
      refine hn ▸ (hanswered.trans ?_) k hpc
      refine leadsTo_nearer h hI hfair hidle hfinal ?_ ?_
      · intro s a s' hs _ hle _ hstep _
        exact hle.trans (completed_le hs.reachable hstep)
      · intro s outcome _ hpc hle
        simp only [ThreadPc.turn, step, threadStep, hpc, if_neg (Nat.not_lt_of_le hle)]
        rfl
    · refine hn ▸ (leadsTo_nearer (R := fun _ => True) h hI hfair hidle hfinal
        (fun _ _ _ _ _ _ _ _ _ => trivial) ?_) k ⟨hpc, trivial⟩
      intro s outcome hs hpc' _
      rw [← hpc']
      refine thread_ready (ownership_of_reachable hs.reachable) (known_of_reachable hs)
        (hpc' ▸ hidle) ?_ outcome
      rw [hpc']
      cases pc with
      | flushWait target before => exact absurd ⟨target, before, rfl⟩ hwait
      | _ => simp [ThreadPc.waits, hfinal]

end Unlog.Handoff
