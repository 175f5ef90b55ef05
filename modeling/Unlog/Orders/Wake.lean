import Unlog.Orders.Registry

/-! # The wake ticket under weak memory

`wake_seq` is only ever updated, so its messages are one release sequence. A consumer that has
sampled the ticket of a flush, or a later one, has acquired what was written before it. -/

namespace Unlog.Orders

open Library
open Handoff (Pages)

variable {maxProducers : ℕ} {m m' : Machine} {a : Action} {t : ℕ} {pages : Pages}
  {memory : Memory Party Loc ℕ}

/-- The thread has bumped `wake_seq` in its flush. -/
def ThreadPc.Woken : ThreadPc → Prop
  | .waitFlush _ | .leaveFlush _ => True
  | _ => False

/-- The value of `wake_seq` that the consumer has sampled in this pass. -/
def ConsumerPc.sample? : ConsumerPc → Option ℕ
  | .readyCount _ seq _ | .takeWord _ seq .. | .visit _ _ _ (.ready seq ..) | .readRequested seq _
  | .readCompleted seq .. | .wait seq => some seq
  | _ => none

/-- The tickets that the consumer is serving. -/
def ConsumerPc.requested? : ConsumerPc → Option ℕ
  | .readCompleted _ _ requested | .flushCount _ requested | .storeCompleted requested
  | .visit _ _ _ (.flush requested _ _) => some requested
  | _ => none

/-- What the bumps of `wake_seq` carry, and that the sample was acquired. -/
structure Wakes (m : Machine) : Prop where
  numbered : Numbered m.memory .wakeSeq
  rising : m.memory.Rising .wakeSeq
  known : ∀ t pages index, (m.thread t).tls pages = some index →
    (m.thread t).tail pages ≤ m.memory.view (.thread t) (.tail pages index)
  carries : ∀ t (message : Message Loc ℕ), (m.thread t).pc.Woken →
    (m.memory.history .wakeSeq)[m.memory.view (.thread t) .wakeSeq]? = some message →
      ∀ pages index, (m.thread t).tls pages = some index →
        (m.thread t).tail pages ≤ message.view (.tail pages index)
  sampled : ∀ seq, m.consumer.pc.sample? = some seq →
    (.wakeSeq, seq) ∈ m.memory.acquired .consumer

/-! ## The sample of a pass -/

theorem sample_nextWord {seq seq' words word : ℕ} {drained : Bool}
    (h : (ConsumerPc.nextWord pages seq drained words word).sample? = some seq') : seq = seq' := by
  unfold ConsumerPc.nextWord at h
  split at h
  · exact Option.some.inj h
  · cases pages <;> exact Option.some.inj h

theorem sample_nextReady {seq seq' words word : ℕ} {drained : Bool} {pending : List ℕ}
    (h : (ConsumerPc.nextReady pages seq drained words word pending).sample? = some seq') :
    seq = seq' := by
  cases pending with
  | nil => exact sample_nextWord h
  | cons => exact Option.some.inj h

theorem sample_nextSlot {requested count i : ℕ} :
    (ConsumerPc.nextSlot pages requested count i).sample? = none := by
  unfold ConsumerPc.nextSlot
  split
  · rfl
  · cases pages <;> rfl

theorem sample_resume {drained : Bool} {resume : Resume} {index seq : ℕ} {stage : Stage}
    (h : (resume.next pages drained).sample? = some seq) :
    (ConsumerPc.visit pages index stage resume).sample? = some seq := by
  cases resume with
  | ready => exact congrArg some (sample_nextReady h)
  | flush =>
      rw [Resume.next, sample_nextSlot] at h
      contradiction

theorem sample_visit {resume : Resume} {index : ℕ} (stage stage' : Stage) :
    (ConsumerPc.visit pages index stage resume).sample? =
      (ConsumerPc.visit pages index stage' resume).sample? := by
  cases resume <;> rfl

/-! ## Where the consumer goes -/

theorem requested_nextWord {seq words word requested : ℕ} {drained : Bool} :
    (ConsumerPc.nextWord pages seq drained words word).requested? ≠ some requested := by
  unfold ConsumerPc.nextWord
  split
  · simp [ConsumerPc.requested?]
  · cases pages <;> simp [ConsumerPc.requested?]

theorem requested_nextReady {seq words word requested : ℕ} {drained : Bool} (pending : List ℕ) :
    (ConsumerPc.nextReady pages seq drained words word pending).requested? ≠ some requested := by
  cases pending with
  | nil => exact requested_nextWord
  | cons => simp [ConsumerPc.nextReady, ConsumerPc.requested?]

theorem requested_nextSlot {requested count i : ℕ} :
    (ConsumerPc.nextSlot pages requested count i).requested? = some requested := by
  unfold ConsumerPc.nextSlot
  split
  · rfl
  · cases pages <;> rfl

theorem requested_visit {resume : Resume} {index : ℕ} (stage stage' : Stage) :
    (ConsumerPc.visit pages index stage resume).requested? =
      (ConsumerPc.visit pages index stage' resume).requested? := by
  cases resume <;> rfl

theorem requested_resume {drained : Bool} {resume : Resume} {index requested : ℕ} {stage : Stage}
    (h : (resume.next pages drained).requested? = some requested) :
    (ConsumerPc.visit pages index stage resume).requested? = some requested := by
  cases resume with
  | ready => exact absurd h (requested_nextReady _)
  | flush => exact requested_nextSlot.symm.trans h

/-- Where the consumer goes, and what it reads on the way. -/
inductive Advances (memory : Memory Party Loc ℕ) (i : ℕ) : ConsumerState → ConsumerState → Prop
  | sample {consumer : ConsumerState} {message : Message Loc ℕ}
      (hpc : consumer.pc = .sampleTicket)
      (hmessage : (memory.history .wakeSeq)[i]? = some message) :
      Advances memory i consumer
        { consumer with pc := .readyCount .normal message.value true }
  | request {consumer : ConsumerState} {seq : ℕ} {drained : Bool} {message : Message Loc ℕ}
      (hpc : consumer.pc = .readRequested seq drained)
      (hmessage : (memory.history .flushRequested)[i]? = some message) :
      Advances memory i consumer
        { consumer with pc := .readCompleted seq drained message.value }
  | serve {consumer : ConsumerState} {seq requested : ℕ} {drained : Bool}
      (hpc : consumer.pc = .readCompleted seq drained requested) :
      Advances memory i consumer { consumer with pc := .flushCount .normal requested }
  | count {consumer : ConsumerState} {pages : Pages} {requested : ℕ} {message : Message Loc ℕ}
      (hpc : consumer.pc = .flushCount pages requested)
      (hle : memory.view .consumer (.count pages) ≤ i)
      (hmessage : (memory.history (.count pages))[i]? = some message) :
      Advances memory i consumer { consumer with pc := .nextSlot pages requested message.value 0 }
  | consume {consumer : ConsumerState} {pages : Pages} {index : ℕ} {resume : Resume}
      {message : Message Loc ℕ} (hpc : consumer.pc = .visit pages index .consume resume)
      (hle : memory.view .consumer (.tail pages index) ≤ i)
      (hmessage : (memory.history (.tail pages index))[i]? = some message) :
      Advances memory i consumer
        { consumer with
          pc := .visit pages index .firstEmpty resume
          head := Function.update consumer.head pages
            (Function.update (consumer.head pages) index message.value) }
  | look {consumer : ConsumerState} {pages : Pages} {index : ℕ} {stage stage' : Stage}
      {resume : Resume} (hpc : consumer.pc = .visit pages index stage resume)
      (hstage : stage ≠ .consume) (hstage' : stage' ≠ .consume) :
      Advances memory i consumer { consumer with pc := .visit pages index stage' resume }
  | leave {consumer : ConsumerState} {pages : Pages} {index : ℕ} {stage : Stage}
      {resume : Resume} {drained : Bool} (hpc : consumer.pc = .visit pages index stage resume)
      (hstage : stage ≠ .consume) :
      Advances memory i consumer { consumer with pc := resume.next pages drained }
  | other {consumer : ConsumerState} {pc : ConsumerPc}
      (hpc : ∀ requested, pc.requested? ≠ some requested)
      (hsample : ∀ seq, pc.sample? = some seq → consumer.pc.sample? = some seq) :
      Advances memory i consumer { consumer with pc := pc }

theorem advances_of_performs {consumer next : ConsumerState} {i : ℕ}
    {memory' : Memory Party Loc ℕ}
    (hperforms : memory.Performs .consumer i consumer.access memory' next) :
    Advances memory i consumer next := by
  cases hpc : consumer.pc with
  | sampleTicket =>
      simp only [ConsumerState.access, hpc] at hperforms
      cases hperforms with
      | read hle hmessage => exact .sample hpc hmessage
  | readyCount pages seq drained =>
      simp only [ConsumerState.access, hpc] at hperforms
      cases hperforms
      refine .other (fun _ => requested_nextWord) fun seq' hsample => ?_
      rw [hpc]
      exact congrArg some (sample_nextWord hsample)
  | takeWord pages seq drained words word =>
      simp only [ConsumerState.access, hpc] at hperforms
      cases hperforms
      refine .other (fun _ => requested_nextReady _) fun seq' hsample => ?_
      rw [hpc]
      exact congrArg some (sample_nextReady hsample)
  | flushCount pages requested =>
      simp only [ConsumerState.access, hpc] at hperforms
      cases hperforms with
      | read hle hmessage => exact .count hpc hle hmessage
  | readRequested seq drained =>
      simp only [ConsumerState.access, hpc] at hperforms
      cases hperforms with
      | read hle hmessage => exact .request hpc hmessage
  | readCompleted seq drained requested =>
      simp only [ConsumerState.access, hpc] at hperforms
      cases hperforms
      dsimp only
      split
      · exact .serve hpc
      · split
        · exact .other (by simp [ConsumerPc.requested?]) fun _ hsample => by rwa [hpc]
        · exact .other (by simp [ConsumerPc.requested?]) fun _ hsample => by contradiction
  | storeCompleted requested =>
      simp only [ConsumerState.access, hpc] at hperforms
      cases hperforms
      exact .other (by simp [ConsumerPc.requested?]) fun _ hsample => by contradiction
  | wait seq =>
      simp only [ConsumerState.access, hpc] at hperforms
      cases hperforms
      dsimp only
      split
      · exact .other (by simp [ConsumerPc.requested?]) fun _ hsample => by rwa [hpc]
      · exact .other (by simp [ConsumerPc.requested?]) fun _ hsample => by contradiction
  | visit pages index stage resume =>
      cases stage with
      | consume =>
          simp only [ConsumerState.access, hpc] at hperforms
          cases hperforms with
          | read hle hmessage => exact .consume hpc hle hmessage
      | firstEmpty =>
          simp only [ConsumerState.access, hpc] at hperforms
          cases hperforms
          dsimp only
          split <;> exact .look hpc (by simp) (by simp)
      | clearEnqueued =>
          simp only [ConsumerState.access, hpc] at hperforms
          cases hperforms
          exact .look hpc (by simp) (by simp)
      | secondEmpty =>
          simp only [ConsumerState.access, hpc] at hperforms
          cases hperforms
          dsimp only
          split
          · exact .leave hpc (by simp)
          · exact .look hpc (by simp) (by simp)
      | remark =>
          simp only [ConsumerState.access, hpc] at hperforms
          cases hperforms
          dsimp only
          split
          · exact .look hpc (by simp) (by simp)
          · exact .leave hpc (by simp)
      | publishReady =>
          simp only [ConsumerState.access, hpc] at hperforms
          cases hperforms
          exact .leave hpc (by simp)

/-- The sample of a pass is the one it had, or has just been read. -/
theorem sample_of_performs {consumer next : ConsumerState} {i seq : ℕ}
    {memory' : Memory Party Loc ℕ}
    (hperforms : memory.Performs .consumer i consumer.access memory' next)
    (h : next.pc.sample? = some seq) :
    consumer.pc.sample? = some seq ∨ ∃ message : Message Loc ℕ,
      (memory.history .wakeSeq)[i]? = some message ∧ message.value = seq ∧
        (.wakeSeq, i) ∈ memory'.acquired .consumer := by
  cases advances_of_performs hperforms with
  | sample hpc hmessage =>
      refine .inr ⟨_, hmessage, Option.some.inj h, ?_⟩
      simp only [ConsumerState.access, hpc] at hperforms
      exact hperforms.acquires rfl
  | request hpc =>
      rw [hpc]
      exact .inl h
  | serve hpc => contradiction
  | count hpc =>
      rw [sample_nextSlot] at h
      contradiction
  | consume hpc | look hpc =>
      rw [hpc]
      exact .inl ((sample_visit _ _).trans h)
  | leave hpc =>
      rw [hpc]
      exact .inl (sample_resume h)
  | other _ hsample => exact .inl (hsample seq h)

/-! ## The bumps -/

theorem Goes.woken {thread next : ThreadState} (h : Goes thread next) (hn : next.pc.Woken) :
    thread.pc.Woken ∨ ∃ target, thread.pc = .wakeFlush target := by
  cases h with
  | bump hpc => exact .inr ⟨_, hpc⟩
  | wait hpc | served hpc =>
      rw [hpc]
      exact .inl trivial
  | _ => contradiction

theorem entry_woken {thread : ThreadState} {call : Call} : ¬ (call.entry thread).Woken := by
  intro h
  cases call with
  | flush => contradiction
  | log pages =>
      simp only [Call.entry] at h
      split at h <;> contradiction

/-- All writes to `wake_seq` are bumps. -/
theorem bump_of_writes {thread : ThreadState} {access : Access Loc ℕ ThreadState}
    (haccess : thread.access maxProducers = some access) (h : thread.pc.Writes .wakeSeq) :
    ∃ k, access = .update .release .wakeSeq (fun seq => some (seq + 1)) k := by
  cases hpc : thread.pc with
  | wake | wakeFlush =>
      simp only [ThreadState.access, hpc, Option.some.injEq] at haccess
      exact ⟨_, haccess.symm⟩
  | idle | waitFlush =>
      rw [hpc] at h
      exact h.elim
  | _ =>
      rw [hpc] at h
      contradiction

theorem Numbered.bump {Program : Type} {p : Party} {i : ℕ} {o : Order} {l : Loc} {k : ℕ → Program}
    {next : Program} {memory' : Memory Party Loc ℕ} (h : Numbered memory l)
    (hperforms : memory.Performs p i (.update o l (fun n => some (n + 1)) k) memory' next) :
    Numbered memory' l := by
  cases hperforms with
  | @update _ _ _ _ message value hlast hvalue =>
      have hmessage := Memory.getElem?_of_last hlast
      have hlt := (List.getElem?_eq_some_iff.mp hmessage).1
      have hreads : Numbered (memory.reads p o l ((memory.history l).length - 1) message) l := h
      apply hreads.writes
      intro _
      obtain rfl := Option.some.inj hvalue
      rw [h _ _ hmessage]
      exact Nat.sub_add_cancel (by omega)

section Step

variable {i : ℕ} {access : Access Loc ℕ ThreadState} {next : ThreadState}
  (haccess : (m.thread t).access maxProducers = some access)
  (hperforms : m.memory.Performs (.thread t) i access memory next)

include haccess hperforms

theorem wakes_numbered (h : Wakes m) : Numbered memory .wakeSeq := by
  by_cases hw : (m.thread t).pc.Writes .wakeSeq
  · obtain ⟨k, rfl⟩ := bump_of_writes haccess hw
    exact h.numbered.bump hperforms
  · exact h.numbered.congr (history_of_writes haccess hperforms hw)

theorem wakes_rising (h : Wakes m) : memory.Rising .wakeSeq := by
  by_cases hw : (m.thread t).pc.Writes .wakeSeq
  · obtain ⟨k, rfl⟩ := bump_of_writes haccess hw
    exact hperforms.rising h.rising (by simp)
  · exact h.rising.congr (history_of_writes haccess hperforms hw)

/-- A thread knows its own records. -/
theorem wakes_known (h : Wakes m) (howned : Owned m pages) {index : ℕ}
    (htls : next.tls pages = some index) :
    next.tail pages ≤ memory.view (.thread t) (.tail pages index) := by
  have hmono := hperforms.view_le (.thread t) (.tail pages index)
  obtain ⟨hsame | ⟨pages', size, hpc, hnew⟩, hold | ⟨pages', index', hpc', hnext⟩⟩ :=
    (goes_of_performs haccess hperforms).locals
  · rw [hold]
    exact (h.known t pages index (hsame ▸ htls)).trans hmono
  · rw [hsame] at htls
    rw [hnext]
    by_cases hpages : pages = pages'
    · subst hpages
      obtain rfl := Option.some.inj (htls.symm.trans (howned.producing t index' hpc'))
      have hlength := (howned.owned t index htls).1
      simp only [ThreadState.access, hpc', Option.some.injEq] at haccess
      subst haccess
      cases hperforms with
      | write =>
          rw [Function.update_self, Memory.writes_view_self, Pi.sup_apply, Pi.single_eq_same]
          exact hlength.ge.trans le_sup_right
    · rw [Function.update_of_ne hpages]
      exact (h.known t pages index htls).trans hmono
  · rw [hold]
    by_cases hpages : pages = pages'
    · subst hpages
      have hlocks : (m.thread t).pc.Locks pages := by
        rw [hpc]
        rfl
      rw [howned.empty t (howned.acquiring t (.inr hlocks))]
      exact Nat.zero_le _
    · rw [hnew, Function.update_of_ne hpages] at htls
      exact (h.known t pages index htls).trans hmono
  · rw [hpc] at hpc'
    contradiction

/-- In its flush the thread knows a bump that carries its records. -/
theorem wakes_carries (h : Wakes m) (hs : m.memory.Sound) (hwoken : next.pc.Woken)
    {message : Message Loc ℕ}
    (hmessage : (memory.history .wakeSeq)[memory.view (.thread t) .wakeSeq]? = some message)
    {index : ℕ} (htls : next.tls pages = some index) :
    next.tail pages ≤ message.view (.tail pages index) := by
  have hgoes := goes_of_performs haccess hperforms
  obtain ⟨hsame, hold⟩ : next.tls = (m.thread t).tls ∧ next.tail = (m.thread t).tail := by
    have hpc := hgoes.woken hwoken
    obtain ⟨htlss, htails⟩ := hgoes.locals
    constructor
    · refine htlss.resolve_right fun ⟨_, _, hunlock, _⟩ => ?_
      rw [hunlock] at hpc
      rcases hpc with hpc | ⟨_, hpc⟩ <;> contradiction
    · refine htails.resolve_right fun ⟨_, _, hproduce, _⟩ => ?_
      rw [hproduce] at hpc
      rcases hpc with hpc | ⟨_, hpc⟩ <;> contradiction
  rw [hsame] at htls
  rw [hold]
  rcases hgoes.woken hwoken with hpc | ⟨target, hpc⟩
  · -- it waits, and what it reads may tell it of later bumps
    have hhistory : memory.history .wakeSeq = m.memory.history .wakeSeq := by
      apply history_of_writes haccess hperforms
      intro hw
      cases hpc' : (m.thread t).pc with
      | waitFlush =>
          rw [hpc'] at hw
          exact hw
      | leaveFlush =>
          rw [hpc'] at hw
          contradiction
      | _ =>
          rw [hpc'] at hpc
          exact hpc
    obtain ⟨old, hbefore⟩ := hs.known (.thread t) .wakeSeq
    have hcarried := h.carries t old hpc hbefore pages index htls
    have hrises := h.rising _ _ old message (hperforms.view_le (.thread t) .wakeSeq) hbefore
      (hhistory ▸ hmessage)
    exact hcarried.trans (hrises _)
  · have hknown := h.known t pages index htls
    simp only [ThreadState.access, hpc, Option.some.injEq] at haccess
    subst haccess
    cases hperforms with
    | @update _ _ _ _ last value hlast hvalue =>
        rw [Memory.writes_view_self, Pi.sup_apply, Pi.single_eq_same] at hmessage
        rcases Memory.writes_getElem? hmessage with hstale | ⟨-, -, rfl⟩
        · have hlt := (List.getElem?_eq_some_iff.mp hstale).1
          have hge := le_sup_right.trans_lt hlt
          exact absurd hge (Nat.lt_irrefl _)
        · -- the bump is a release, and the thread knows its records
          have hreads : m.memory.view (.thread t) (.tail pages index) ≤
              (m.memory.reads (.thread t) .release .wakeSeq
                ((m.memory.history .wakeSeq).length - 1) last).view (.thread t)
                  (.tail pages index) := by
            rw [Memory.reads_view_self]
            exact le_sup_left.trans le_sup_left
          exact (hknown.trans hreads).trans (le_sup_left.trans le_sup_right)

end Step

theorem wakes_thread {i : ℕ} {access : Access Loc ℕ ThreadState} {next : ThreadState}
    (haccess : (m.thread t).access maxProducers = some access)
    (hperforms : m.memory.Performs (.thread t) i access memory next) (h : Wakes m)
    (hs : m.memory.Sound) (howned : ∀ pages, Owned m pages) :
    Wakes (m.after t memory next) := by
  refine
    { numbered := wakes_numbered haccess hperforms h
      rising := wakes_rising haccess hperforms h
      known := fun t' pages index htls => ?_
      carries := fun t' message hwoken hmessage pages index htls => ?_
      sampled := fun seq hsample => hperforms.acquired (h.sampled seq hsample) }
  · by_cases ht : t' = t
    · subst ht
      rw [Machine.after_self] at htls ⊢
      exact wakes_known haccess hperforms h (howned pages) htls
    · rw [Machine.after_of_ne ht] at htls ⊢
      rw [Machine.after_memory, hperforms.view_of_ne (by simpa using ht)]
      exact h.known t' pages index htls
  · by_cases ht : t' = t
    · subst ht
      rw [Machine.after_self] at hwoken htls ⊢
      exact wakes_carries haccess hperforms h hs hwoken hmessage htls
    · rw [Machine.after_of_ne ht] at hwoken htls ⊢
      rw [Machine.after_memory, hperforms.view_of_ne (by simpa using ht)] at hmessage
      obtain ⟨old, hold⟩ := hs.known (.thread t') .wakeSeq
      have hgrown := Memory.getElem?_of_grows (hperforms.grows .wakeSeq) hold
      obtain rfl := Option.some.inj (hgrown.symm.trans hmessage)
      exact h.carries t' old hwoken hold pages index htls

theorem wakes_consumer {i : ℕ} {next : ConsumerState}
    (hperforms : m.memory.Performs .consumer i m.consumer.access memory next) (h : Wakes m) :
    Wakes { m with memory := memory, consumer := next } := by
  have hsame := history_of_foreign (l := .wakeSeq) hperforms rfl
  have hview := fun t => hperforms.view_of_ne (q := .thread t) (by simp)
  refine
    { numbered := h.numbered.congr hsame
      rising := h.rising.congr hsame
      known := fun t pages index htls => (hview t).symm ▸ h.known t pages index htls
      carries := fun t message hwoken hmessage pages index htls => ?_
      sampled := fun seq hsample => ?_ }
  · refine h.carries t message hwoken ?_ pages index htls
    rw [← hsame, ← hview t]
    exact hmessage
  · rcases sample_of_performs hperforms hsample with hold | ⟨message, hmessage, hvalue, hmem⟩
    · exact hperforms.acquired (h.sampled seq hold)
    · rw [h.numbered _ _ hmessage] at hvalue
      exact hvalue ▸ hmem

theorem wakes_of_reachable (h : (orders maxProducers).Reachable m) : Wakes m := by
  refine h.invariant ?_ fun m a m' hm hw hstep => ?_
  · rintro m rfl
    refine
      { numbered := fun i message hmessage => ?_
        rising := fun i j message message' _ hi hj => ?_
        known := fun t pages index htls => by contradiction
        carries := fun t message hwoken => hwoken.elim
        sampled := fun seq hsample => by contradiction }
    · obtain rfl := (initial_message hmessage).1
      obtain rfl := Option.some.inj hmessage
      rfl
    · rw [(initial_message hi).2]
      exact bot_le
  · cases step_kind hstep with
    | @call t call hidle =>
        refine { hw with known := ?_, carries := ?_ }
        · exact after_all (P := fun t' thread => ∀ pages index, thread.tls pages = some index →
            thread.tail pages ≤ m.memory.view (.thread t') (.tail pages index)) (hw.known t)
            fun t' _ => hw.known t'
        · refine after_all (P := fun t' thread => ∀ (message : Message Loc ℕ), thread.pc.Woken →
            (m.memory.history .wakeSeq)[m.memory.view (.thread t') .wakeSeq]? = some message →
              ∀ pages index, thread.tls pages = some index →
                thread.tail pages ≤ message.view (.tail pages index)) ?_ fun t' _ => hw.carries t'
          exact fun message hwoken => absurd hwoken entry_woken
    | thread haccess hperforms =>
        exact wakes_thread haccess hperforms hw (sound_of_reachable hm)
          fun pages => (registrySound_of_reachable hm pages).2
    | consumer hperforms => exact wakes_consumer hperforms hw

/-- A consumer whose sample is not older than the bump of a flush knows what was published
before it. -/
theorem heard_of_sampled (h : (orders maxProducers).Reachable m) {seq index : ℕ}
    (hsample : m.consumer.pc.sample? = some seq) (hwoken : (m.thread t).pc.Woken)
    (hle : m.memory.view (.thread t) .wakeSeq ≤ seq)
    (htls : (m.thread t).tls pages = some index) :
    m.memory.Heard .consumer (.tail pages index) ((m.thread t).tail pages) := by
  have hw := wakes_of_reachable h
  have hs := sound_of_reachable h
  have hacquired := hw.sampled seq hsample
  obtain ⟨message, hmessage, -⟩ := hs.acquired _ _ _ hacquired
  obtain ⟨bump, hbump⟩ := hs.known (.thread t) .wakeSeq
  have hcarried := hw.carries t bump hwoken hbump pages index htls
  have hrises := hw.rising _ _ bump message hle hbump hmessage
  exact ⟨.wakeSeq, seq, message, hacquired, hmessage, hcarried.trans (hrises _)⟩

end Unlog.Orders
