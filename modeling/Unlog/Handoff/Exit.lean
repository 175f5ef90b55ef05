import Unlog.Handoff.Churn

/-! # Threads end

A thread's destructors run in any order, log as they please, and the one of `tls_state` runs once.
The threads are watched together with the producers each of them acquired and retired. -/

namespace Unlog.Handoff

open Library

/-! ## Threads that begin and end -/

/-- A thread starts, its function returns, all its destructors have run, or something happens in
the hand-off. -/
inductive ThreadAction where
  | start (t : ℕ)
  | exit (t : ℕ)
  | finish (t : ℕ)
  | act (a : Action)
  deriving DecidableEq, Repr

/-- The hand-off and its threads: which live and which have ended, whose destructors are running,
which `tls_state` objects were constructed and which destroyed, what each thread acquired and
retired, the threads that had ended when a thread called its latest flush, and those that had ended
when a flush that has returned was called. -/
structure Threads where
  state : State
  live : Finset ℕ := ∅
  ended : Finset ℕ := ∅
  exiting : ℕ → Bool := fun _ => false
  constructed : ℕ → Pages → Bool := fun _ _ => false
  destroyed : ℕ → Pages → Bool := fun _ _ => false
  acquired : ℕ → List ProducerId := fun _ => []
  retired : ℕ → List ProducerId := fun _ => []
  called : ℕ → Finset ℕ := fun _ => ∅
  settled : Finset ℕ := ∅

/-- The thread is in `threadsafe_producer` without a producer. -/
def ThreadPc.acquires (pages : Pages) : ThreadPc → Bool
  | .acquire pages' _ => pages' == pages
  | _ => false

/-- The producer a thread acquires with a step to `s'`. -/
def acquires (s s' : State) : Action → Option ProducerId
  | .thread t =>
    match s.pc t with
    | .acquire pages _ => (s'.tls t pages).map (.pooled pages)
    | _ => none
  | _ => none

/-- The thread whose flush of a running runtime returns. -/
def flushReturns (s : State) : Action → Option ℕ
  | .thread t =>
    match s.pc t with
    | .flushLeave _ _ => if s.lifecycle = .running then some t else none
    | _ => none
  | _ => none

namespace Threads

variable (w : Threads)

/-- Live threads act, and the destructor of a constructed `tls_state` runs once. -/
def permits : Action → Bool
  | .consumer => true
  | .call t (.release pages) =>
    decide (t ∈ w.live) && w.exiting t && w.constructed t pages && !w.destroyed t pages
  | .call t _ | .thread t | .produce t _ => decide (t ∈ w.live)

/-- No destructor is left to run. -/
def clean (t : ℕ) : Bool :=
  [Pages.normal, .huge].all fun pages => !w.constructed t pages || w.destroyed t pages

def next (a : Action) (s' : State) : Threads :=
  { w with
    state := s'
    constructed t pages := w.constructed t pages || (s'.pc t).acquires pages
    destroyed t pages := w.destroyed t pages || a == .call t (.release pages)
    acquired t :=
      w.acquired t ++ if a.thread? = some t then (Handoff.acquires w.state s' a).toList else []
    retired t := w.retired t ++ if a.thread? = some t then (retires w.state a).toList else []
    called t := if a = .call t .flush then w.ended else w.called t
    settled := w.settled ∪ ((flushReturns w.state a).map w.called).getD ∅ }

def step (conf : Sealed) : ThreadAction → Option Threads
  | .start t =>
    if t ∈ w.live ∨ t ∈ w.ended then none else some { w with live := insert t w.live }
  | .exit t =>
    if t ∈ w.live ∧ w.state.pc t = .idle then
      some { w with exiting := Function.update w.exiting t true }
    else none
  | .finish t =>
    if t ∈ w.live ∧ w.exiting t = true ∧ w.state.pc t = .idle ∧ w.clean t = true then
      some { w with live := w.live.erase t, ended := insert t w.ended }
    else none
  | .act a => if w.permits a = true then (Handoff.step conf w.state a).map (w.next a) else none

end Threads

/-- The hand-off with threads that end. -/
def threads (conf : Sealed) : System Threads ThreadAction where
  Initial w := ∃ level, w = { state := State.started conf level }
  step w a := w.step conf a

/-- The producers of a registry that are not free. -/
def State.inUse (s : State) (pages : Pages) : ℕ :=
  ((Finset.range (s.registry pages).count).filter fun i =>
    (s.producer (.pooled pages i)).lifecycle ≠ .free).card

/-- Whoever has ended has retired what it acquired, and a flush that was called after that frees
it: what is in use of a registry belongs to live threads and those that ended since. -/
structure ExitContract (w : Threads) : Prop where
  retired : ∀ t ∈ w.ended, ∀ p, (w.retired t).count p = (w.acquired t).count p
  bounded : ∀ pages, w.state.inUse pages ≤ w.live.card + (w.ended \ w.settled).card

/-- `threadsafe_producer` finds a producer to hand out. -/
def State.vacant (conf : Sealed) (s : State) (pages : Pages) : Prop :=
  (s.registry pages).freeHead ≠ conf.maxProducers ∨ (s.registry pages).size < conf.maxProducers

instance (s : State) : Decidable (s.vacant conf pages) :=
  inferInstanceAs (Decidable (_ ∨ _))

/-- No thread acquires a producer after its `tls_state` was destroyed. -/
def Threads.InTime (conf : Sealed) (w : Threads) (a : ThreadAction) : Prop :=
  ∀ t pages purpose, a = .act (.thread t) → w.state.pc t = .acquire pages purpose →
    w.state.vacant conf pages → w.destroyed t pages = false

/-- The same as a test of the state before the step. -/
def Threads.inTime (conf : Sealed) (w : Threads) : ThreadAction → Bool
  | .act (.thread t) =>
    match w.state.pc t with
    | .acquire pages _ => decide (w.state.vacant conf pages → w.destroyed t pages = false)
    | _ => true
  | _ => true

variable {conf : Sealed} {s s' : State} {t : ℕ} {a : Action} {w w' : Threads} {pages : Pages}

theorem Threads.inTime_iff {a : ThreadAction} : w.inTime conf a = true ↔ w.InTime conf a := by
  constructor
  · rintro h t pages purpose rfl hpc
    simp only [Threads.inTime, hpc] at h
    exact of_decide_eq_true h
  · intro h
    cases a with
    | act a =>
        cases a with
        | thread t =>
            simp only [Threads.inTime]
            split
            · rename_i pages purpose hpc
              exact decide_eq_true (h t pages purpose rfl hpc)
            · rfl
        | _ => rfl
    | _ => rfl

instance (w : Threads) (a : ThreadAction) : Decidable (w.InTime conf a) :=
  decidable_of_iff (w.inTime conf a = true) Threads.inTime_iff

/-! ## Acquired and retired -/

/-- The thread holds the producer. -/
def Held (s : State) (t : ℕ) : ProducerId → Prop
  | .single _ => False
  | .pooled pages i => s.tls t pages = some i

instance (s : State) (t : ℕ) : (p : ProducerId) → Decidable (Held s t p)
  | .single _ => inferInstanceAs (Decidable False)
  | .pooled pages i => inferInstanceAs (Decidable (s.tls t pages = some i))

/-- What a step does to the producers a thread holds. -/
inductive Hold (s s' : State) (a : Action) : Prop
  | keep (htls : s'.tls = s.tls) (hacquires : acquires s s' a = none)
      (hretires : retires s a = none)
  | acquire {t : ℕ} {pages : Pages} {purpose : Purpose} {i : ℕ} (ha : a = .thread t)
      (hpc : s.pc t = .acquire pages purpose) (hnone : s.tls t pages = none)
      (hsome : s'.tls t pages = some i)
      (hother : ∀ other pages', other ≠ t ∨ pages' ≠ pages →
        s'.tls other pages' = s.tls other pages')
  | retire {t : ℕ} {pages : Pages} {i : ℕ} (ha : a = .thread t)
      (hpc : s.pc t = .retire pages i) (hsome : s.tls t pages = some i)
      (hnone : s'.tls t pages = none)
      (hother : ∀ other pages', other ≠ t ∨ pages' ≠ pages →
        s'.tls other pages' = s.tls other pages')
      (hretires : retires s a = some (.pooled pages i))

theorem acquires_of_ne (hpc : ∀ t pages purpose, a = .thread t → s.pc t ≠ .acquire pages purpose) :
    acquires s s' a = none := by
  cases a with
  | thread t =>
      simp only [acquires]
      split
      · rename_i pages purpose heq
        exact absurd heq (hpc t pages purpose rfl)
      · rfl
  | _ => rfl

theorem retires_of_ne (hpc : ∀ t pages i, a = .thread t → s.pc t ≠ .retire pages i) :
    retires s a = none := by
  cases a with
  | thread t =>
      simp only [retires]
      split
      · rename_i pages i heq
        exact absurd heq (hpc t pages i rfl)
      · rfl
  | _ => rfl

theorem hold_step (hown : Ownership conf s) (hstep : step conf s a = some s') :
    Hold s s' a := by
  cases a with
  | call t call =>
      refine .keep ?_ rfl rfl
      simp only [step] at hstep
      split at hstep
      · obtain rfl := Option.some.inj hstep
        rfl
      · contradiction
  | consumer => exact .keep (consumerStep_cases hstep).tls_eq rfl rfl
  | produce t outcome =>
      refine .keep ?_ rfl rfl
      simp only [step] at hstep
      split at hstep
      · rename_i channel p hpc
        obtain rfl := Option.some.inj hstep
        rcases (produceStep_cases hpc outcome : ThreadStep conf s t _).tls with
          hsame | ⟨pages, -, ⟨purpose, hacquire, -⟩ | ⟨i, hretire, -⟩⟩
        · exact hsame
        · rw [hpc] at hacquire
          contradiction
        · rw [hpc] at hretire
          contradiction
      · contradiction
  | thread t =>
      have hthread : ThreadStep conf s t s' := threadStep_cases hstep
      cases hpc : s.pc t with
      | acquire pages purpose =>
          have hnone := (hown.pc t).acquiring pages purpose hpc
          rcases hthread.tls with hsame | ⟨pages', hother, ⟨purpose', hpc', hsome⟩ | ⟨i, hpc', -⟩⟩
          · refine .keep hsame ?_ (retires_of_ne fun t' pages' i heq => ?_)
            · simp [acquires, hpc, hsame, hnone]
            · obtain rfl := Action.thread.inj heq
              simp [hpc]
          · obtain ⟨rfl, rfl⟩ := ThreadPc.acquire.inj (hpc.symm.trans hpc')
            obtain ⟨i, hi⟩ := Option.ne_none_iff_exists'.mp hsome
            exact .acquire rfl hpc hnone hi hother
          · rw [hpc] at hpc'
            contradiction
      | retire pages i =>
          have hsome := (hown.pc t).holds pages i (by rw [hpc]; rfl)
          have hactive := ((hown.registry pages).holding.held t i hsome).2
          rcases hthread.tls with hsame | ⟨pages', hother, ⟨purpose', hpc', -⟩ | ⟨j, hpc', hnone⟩⟩
          · have hnone := hthread.released hpc
            rw [hsame, hsome] at hnone
            contradiction
          · rw [hpc] at hpc'
            contradiction
          · obtain ⟨rfl, rfl⟩ := ThreadPc.retire.inj (hpc.symm.trans hpc')
            refine .retire rfl hpc hsome hnone hother ?_
            exact retires_thread.mpr ⟨pages, i, rfl, hpc, hactive⟩
      | _ =>
          refine .keep ?_ (acquires_of_ne fun t' pages purpose heq => ?_)
            (retires_of_ne fun t' pages i heq => ?_)
          · rcases hthread.tls with hsame | ⟨pages, -, ⟨purpose, hacquire, -⟩ | ⟨i, hretire, -⟩⟩
            · exact hsame
            · rw [hpc] at hacquire
              contradiction
            · rw [hpc] at hretire
              contradiction
          · obtain rfl := Action.thread.inj heq
            simp [hpc]
          · obtain rfl := Action.thread.inj heq
            simp [hpc]

/-- A thread that gets a producer found one. -/
theorem vacant_of_acquired {purpose : Purpose} (hpc : s.pc t = .acquire pages purpose)
    (hstep : step conf s (.thread t) = some s') (h : s'.tls t pages ≠ s.tls t pages) :
    s.vacant conf pages := by
  simp only [step, threadStep, hpc, acquireStep] at hstep
  split at hstep
  case isTrue hhead => exact .inl hhead
  case isFalse hhead =>
    split at hstep
    case isTrue hfull =>
      obtain rfl := Option.some.inj hstep
      exact absurd rfl h
    case isFalse hfull => exact .inr (Nat.lt_of_not_le hfull)

/-- A thread that finds a producer gets one. -/
theorem acquired_of_vacant {purpose : Purpose} (hpc : s.pc t = .acquire pages purpose)
    (hstep : step conf s (.thread t) = some s') (h : s.vacant conf pages) :
    s'.tls t pages ≠ none := by
  have hthread : ThreadStep conf s t s' := threadStep_cases hstep
  simp only [step, threadStep, hpc, acquireStep] at hstep
  split at hstep
  case isTrue hhead =>
    split at hstep
    case h_1 => contradiction
    case h_2 index hslot =>
      obtain rfl := Option.some.inj hstep
      change State.tls (State.setTls _ _ _ _) _ _ ≠ none
      simp [State.setTls_tls_self]
  case isFalse hhead =>
    split at hstep
    case isTrue hfull => exact absurd hfull (Nat.not_le.mpr (h.resolve_left hhead))
    case isFalse hfull =>
      obtain rfl := Option.some.inj hstep
      change State.tls (State.setTls _ _ _ _) _ _ ≠ none
      simp [State.setTls_tls_self]

/-- Only the destructor of `tls_state` begins a retirement, and the next step of its thread ends
it. -/
theorem retire_step (hstep : step conf s a = some s') {t i : ℕ}
    (h : s'.pc t = .retire pages i) :
    s.pc t = .retire pages i ∧ a.thread? ≠ some t ∨ a = .call t (.release pages) := by
  by_cases ha : a.thread? = some t
  · refine .inr ?_
    cases step_kind hstep with
    | call t' call hidle =>
        obtain rfl := Option.some.inj ha
        rw [State.setPc_pc_self] at h
        cases call with
        | release pages' =>
            simp only [Call.entry] at h
            split at h
            · contradiction
            · obtain ⟨rfl, -⟩ := ThreadPc.retire.inj h
              rfl
        | _ => contradiction
    | thread t' ha' hbusy hthread =>
        obtain rfl := Option.some.inj (ha'.symm.trans ha)
        have hnext := hthread.next
        rw [h] at hnext
        generalize s.pc t' = pc at hnext hbusy
        cases hnext with
        | move hmove => cases hmove
        | _ => contradiction
    | consumer => contradiction
  · exact .inl ⟨(step_other hstep ha).1 ▸ h, ha⟩

/-! ## The books of every thread -/

/-- Threads that are not live rest, what a thread acquired it has retired or holds, and the
destructor of a `tls_state` retires at most one producer. -/
structure ThreadsSound (w : Threads) : Prop where
  idle : ∀ t, t ∉ w.live → w.state.pc t = .idle
  apart : ∀ t ∈ w.ended, t ∉ w.live
  known : ∀ t, t ∉ w.live → t ∉ w.ended →
    (∀ pages, w.state.tls t pages = none) ∧ w.retired t = []
  constructed : ∀ t pages, (w.state.pc t).acquires pages = true ∨ w.state.tls t pages ≠ none →
    w.constructed t pages = true
  owed : ∀ t p, (w.acquired t).count p =
    (w.retired t).count p + if Held w.state t p then 1 else 0
  leaving : ∀ t pages i, w.state.pc t = .retire pages i → w.destroyed t pages = true
  once : ∀ t pages i, .pooled pages i ∈ w.retired t →
    w.destroyed t pages = true ∧ ∀ j, w.state.pc t ≠ .retire pages j
  one : ∀ t pages i j, .pooled pages i ∈ w.retired t → .pooled pages j ∈ w.retired t → i = j
  called : ∀ t, w.called t ⊆ w.ended
  settled : w.settled ⊆ w.ended

theorem Threads.live_of_thread {a : Action} (h : w.permits a = true) (ha : a.thread? = some t) :
    t ∈ w.live := by
  cases a with
  | consumer => contradiction
  | call t' call =>
      obtain rfl := Option.some.inj ha
      cases call with
      | release pages =>
          simp only [Threads.permits, Bool.and_eq_true, decide_eq_true_eq] at h
          exact h.1.1.1
      | _ => exact of_decide_eq_true h
  | thread t' | produce t' outcome =>
      obtain rfl := Option.some.inj ha
      exact of_decide_eq_true h

theorem Threads.fresh_of_release (h : w.permits (.call t (.release pages)) = true) :
    w.destroyed t pages = false := by
  simp only [Threads.permits, Bool.and_eq_true, Bool.not_eq_true'] at h
  exact h.2

theorem held_pooled {i : ℕ} : Held s t (.pooled pages i) ↔ s.tls t pages = some i := Iff.rfl

/-- What is retired by a step is retired by the thread at it. -/
theorem retires_iff {t i : ℕ} (ha : a.thread? = some t)
    (h : retires s a = some (.pooled pages i)) : a = .thread t ∧ s.pc t = .retire pages i := by
  cases a with
  | thread t' =>
      obtain rfl := Option.some.inj ha
      obtain ⟨pages', index, heq, hpc, -⟩ := retires_thread.mp h
      obtain ⟨rfl, rfl⟩ := ProducerId.pooled.inj heq
      exact ⟨rfl, hpc⟩
  | _ => contradiction

/-- What a thread holds depends on its own pointers only. -/
theorem held_congr (h : ∀ pages, s'.tls t pages = s.tls t pages) (p : ProducerId) :
    Held s' t p ↔ Held s t p := by
  cases p with
  | single => exact Iff.rfl
  | pooled pages i => rw [held_pooled, held_pooled, h pages]

/-- A pointer that is set makes its thread hold one more producer. -/
theorem held_of_set {i : ℕ} (hnone : s.tls t pages = none) (hsome : s'.tls t pages = some i)
    (hother : ∀ pages', pages' ≠ pages → s'.tls t pages' = s.tls t pages') (p : ProducerId) :
    (if Held s' t p then 1 else 0) =
      (if Held s t p then 1 else 0) + if (.pooled pages i : ProducerId) = p then 1 else 0 := by
  cases p with
  | single => simp [Held]
  | pooled pages' j =>
      by_cases heq : pages' = pages
      · subst heq
        simp [held_pooled, hnone, hsome]
      · have hne : ¬pages = pages' := fun h => heq h.symm
        simp [held_pooled, hother pages' heq, hne]

theorem owed_step (hown : Ownership conf s) (hstep : step conf s a = some s') {t : ℕ}
    {acquired retired : List ProducerId} (p : ProducerId)
    (h : acquired.count p = retired.count p + if Held s t p then 1 else 0) :
    (acquired ++ if a.thread? = some t then (acquires s s' a).toList else []).count p =
      (retired ++ if a.thread? = some t then (retires s a).toList else []).count p +
        if Held s' t p then 1 else 0 := by
  rw [List.count_append, List.count_append, h]
  cases hold_step hown hstep with
  | keep htls hacquires hretires =>
      have hheld : Held s' t p ↔ Held s t p := held_congr (fun pages => by rw [htls]) p
      simp [hacquires, hretires, hheld]
  | @acquire t' pages purpose i ha hpc hnone hsome hother =>
      subst ha
      by_cases ht : t' = t
      · subst ht
        have hacquires : acquires s s' (.thread t') = some (.pooled pages i) := by
          simp [acquires, hpc, hsome]
        have hretires : retires s (.thread t') = none := retires_of_ne fun t'' pages' j heq => by
          obtain rfl := Action.thread.inj heq
          simp [hpc]
        have hheld := held_of_set hnone hsome (fun pages' hne => hother t' pages' (.inr hne)) p
        simp only [Action.thread?, hacquires, hretires, Option.toList_some, Option.toList_none,
          if_true, List.count_singleton, List.count_nil, beq_iff_eq, hheld]
        omega
      · have hheld := held_congr (fun pages' => hother t pages' (.inl (Ne.symm ht))) p
        simp [Action.thread?, ht, hheld]
  | @retire t' pages i ha hpc hsome hnone hother hretires =>
      subst ha
      by_cases ht : t' = t
      · subst ht
        have hacquires : acquires s s' (.thread t') = none := by simp [acquires, hpc]
        have hheld := held_of_set hnone hsome
          (fun pages' hne => (hother t' pages' (.inr hne)).symm) p
        simp only [Action.thread?, hacquires, hretires, Option.toList_some, Option.toList_none,
          if_true, List.count_singleton, List.count_nil, beq_iff_eq, hheld]
        omega
      · have hheld := held_congr (fun pages' => hother t pages' (.inl (Ne.symm ht))) p
        simp [Action.thread?, ht, hheld]

theorem mem_retired_next {p : ProducerId} : p ∈ (w.next a s').retired t ↔
    p ∈ w.retired t ∨ a.thread? = some t ∧ retires w.state a = some p := by
  simp only [Threads.next, List.mem_append]
  split
  case isTrue ha => simp [ha, Option.mem_toList]
  case isFalse ha => simp [ha]

/-- What happens in the hand-off leaves the books right. -/
theorem ThreadsSound.act (h : ThreadsSound w) (hown : Ownership conf w.state)
    (hpermits : w.permits a = true) (hstep : Handoff.step conf w.state a = some s') :
    ThreadsSound (w.next a s') := by
  have hother : ∀ t, t ∉ w.live → a.thread? ≠ some t := fun t ht ha =>
    ht (Threads.live_of_thread hpermits ha)
  refine
    { idle := fun t ht => ?_
      apart := h.apart
      known := fun t hlive hended => ?_
      constructed := fun t pages hheld => ?_
      owed := fun t p => owed_step hown hstep p (h.owed t p)
      leaving := fun t pages i hpc => ?_
      once := fun t pages i hmem => ?_
      one := fun t pages i j hi hj => ?_
      called := fun t => ?_
      settled := ?_ }
  · exact (step_other hstep (hother t ht)).1.trans (h.idle t ht)
  · obtain ⟨htls, hretired⟩ := h.known t hlive hended
    refine ⟨fun pages => ?_, ?_⟩
    · exact (congrFun (step_other hstep (hother t hlive)).2 pages).trans (htls pages)
    · simp [Threads.next, hretired, hother t hlive]
  · refine Bool.or_eq_true_iff.mpr ?_
    rcases hheld with hpc | htls
    · exact .inr hpc
    · refine .inl (h.constructed t pages ?_)
      change s'.tls t pages ≠ none at htls
      cases hold_step hown hstep with
      | keep heq => exact .inr (heq ▸ htls)
      | @acquire t' pages' purpose i _ hpc _ _ hsame =>
          by_cases hp : t = t' ∧ pages = pages'
          · obtain ⟨rfl, rfl⟩ := hp
            exact .inl (by simp [hpc, ThreadPc.acquires])
          · rw [hsame t pages (not_and_or.mp hp)] at htls
            exact .inr htls
      | @retire t' pages' i _ _ _ hnone hsame =>
          by_cases hp : t = t' ∧ pages = pages'
          · obtain ⟨rfl, rfl⟩ := hp
            exact absurd hnone htls
          · rw [hsame t pages (not_and_or.mp hp)] at htls
            exact .inr htls
  · refine Bool.or_eq_true_iff.mpr ?_
    rcases retire_step hstep hpc with ⟨hpc', -⟩ | rfl
    · exact .inl (h.leaving t pages i hpc')
    · exact .inr (beq_self_eq_true _)
  · rcases mem_retired_next.mp hmem with hold | ⟨ha, hretires⟩
    · obtain ⟨hdestroyed, hnot⟩ := h.once t pages i hold
      refine ⟨Bool.or_eq_true_iff.mpr (.inl hdestroyed), fun j hpc => ?_⟩
      rcases retire_step hstep hpc with ⟨hpc', -⟩ | rfl
      · exact hnot j hpc'
      · rw [Threads.fresh_of_release hpermits] at hdestroyed
        contradiction
    · obtain ⟨rfl, hpc⟩ := retires_iff ha hretires
      refine ⟨Bool.or_eq_true_iff.mpr (.inl (h.leaving t pages i hpc)), fun j hpc' => ?_⟩
      rcases retire_step hstep hpc' with ⟨-, hne⟩ | heq
      · exact hne ha
      · contradiction
  · rcases mem_retired_next.mp hi with hi | ⟨ha, hi⟩
    · rcases mem_retired_next.mp hj with hj | ⟨ha, hj⟩
      · exact h.one t pages i j hi hj
      · exact absurd (retires_iff ha hj).2 ((h.once t pages i hi).2 j)
    · rcases mem_retired_next.mp hj with hj | ⟨-, hj⟩
      · exact absurd (retires_iff ha hi).2 ((h.once t pages j hj).2 i)
      · exact (ProducerId.pooled.inj (Option.some.inj (hi.symm.trans hj))).2
  · simp only [Threads.next]
    split
    · exact subset_rfl
    · exact h.called t
  · refine Finset.union_subset h.settled ?_
    cases flushReturns w.state a with
    | none => exact Finset.empty_subset w.ended
    | some f => exact h.called f

theorem ThreadsSound.start (h : ThreadsSound w) (hlive : t ∉ w.live) (hended : t ∉ w.ended) :
    ThreadsSound { w with live := insert t w.live } := by
  obtain ⟨htls, hretired⟩ := h.known t hlive hended
  refine { h with idle := fun t' ht' => ?_, apart := fun t' ht' => ?_, known := fun t' ht' => ?_ }
  · exact h.idle t' fun hmem => ht' (Finset.mem_insert_of_mem hmem)
  · refine fun hmem => (Finset.mem_insert.mp hmem).elim (fun heq => ?_) (h.apart t' ht')
    exact hended (heq ▸ ht')
  · exact h.known t' fun hmem => ht' (Finset.mem_insert_of_mem hmem)

theorem ThreadsSound.finish (h : ThreadsSound w) (hidle : w.state.pc t = .idle) :
    ThreadsSound { w with live := w.live.erase t, ended := insert t w.ended } := by
  refine
    { h with
      idle := fun t' ht' => ?_
      apart := fun t' ht' hmem => ?_
      known := fun t' ht' hended => ?_
      called := fun f => (h.called f).trans (Finset.subset_insert t w.ended)
      settled := h.settled.trans (Finset.subset_insert t w.ended) }
  · by_cases heq : t' = t
    · exact heq ▸ hidle
    · exact h.idle t' fun hmem => ht' (Finset.mem_erase_of_ne_of_mem heq hmem)
  · obtain ⟨hne, hmem⟩ := Finset.mem_erase.mp hmem
    exact h.apart t' ((Finset.mem_insert.mp ht').resolve_left hne) hmem
  · have hne : t' ≠ t := fun heq => hended (heq ▸ Finset.mem_insert_self t w.ended)
    exact h.known t' (fun hmem => ht' (Finset.mem_erase_of_ne_of_mem hne hmem))
      fun hmem => hended (Finset.mem_insert_of_mem hmem)

theorem threadsSound_initial (level : ℕ → LogLevel) :
    ThreadsSound { state := State.started conf level } := by
  refine
    { idle := fun t _ => rfl
      apart := fun t ht => absurd ht (Finset.notMem_empty t)
      known := fun t _ _ => ⟨fun _ => rfl, rfl⟩
      constructed := fun t pages h => h.elim (fun hpc => ?_) fun htls => absurd rfl htls
      owed := fun t p => ?_
      leaving := fun t pages i hpc => ?_
      once := fun t pages i hmem => absurd hmem List.not_mem_nil
      one := fun t pages i j hi _ => absurd hi List.not_mem_nil
      called := fun t => subset_rfl
      settled := subset_rfl }
  · contradiction
  · cases p <;> rfl
  · contradiction

/-- What a step of the threads is: one of the hand-off, or one that leaves it alone. -/
inductive ThreadsStep (conf : Sealed) (w : Threads) : ThreadAction → Threads → Prop
  | start {t : ℕ} (hlive : t ∉ w.live) (hended : t ∉ w.ended) :
      ThreadsStep conf w (.start t) { w with live := insert t w.live }
  | exit {t : ℕ} (hlive : t ∈ w.live) (hidle : w.state.pc t = .idle) :
      ThreadsStep conf w (.exit t) { w with exiting := Function.update w.exiting t true }
  | finish {t : ℕ} (hlive : t ∈ w.live) (hexiting : w.exiting t = true)
      (hidle : w.state.pc t = .idle) (hclean : w.clean t = true) :
      ThreadsStep conf w (.finish t)
        { w with live := w.live.erase t, ended := insert t w.ended }
  | act {a : Action} {s' : State} (hpermits : w.permits a = true)
      (hnext : Handoff.step conf w.state a = some s') : ThreadsStep conf w (.act a) (w.next a s')

theorem threadsStep_cases {a : ThreadAction} (hstep : (threads conf).step w a = some w') :
    ThreadsStep conf w a w' := by
  cases a with
  | start t =>
      simp only [threads, Threads.step] at hstep
      split at hstep
      case isTrue => contradiction
      case isFalse hnew =>
        obtain rfl := Option.some.inj hstep
        obtain ⟨hlive, hended⟩ := not_or.mp hnew
        exact .start hlive hended
  | exit t =>
      simp only [threads, Threads.step] at hstep
      split at hstep
      case isTrue h =>
        obtain rfl := Option.some.inj hstep
        exact .exit h.1 h.2
      case isFalse => contradiction
  | finish t =>
      simp only [threads, Threads.step] at hstep
      split at hstep
      case isTrue h =>
        obtain rfl := Option.some.inj hstep
        exact .finish h.1 h.2.1 h.2.2.1 h.2.2.2
      case isFalse => contradiction
  | act a =>
      simp only [threads, Threads.step] at hstep
      split at hstep
      case isTrue hpermits =>
        obtain ⟨s', hs', rfl⟩ := Option.map_eq_some_iff.mp hstep
        exact .act hpermits hs'
      case isFalse => contradiction

/-- The hand-off runs as it always does. -/
theorem state_of_threads (h : (threads conf).Reachable w) : (handoff conf).Reachable w.state := by
  refine h.invariant (I := fun w => (handoff conf).Reachable w.state) ?_ ?_
  · rintro w ⟨level, rfl⟩
    exact .initial ⟨level, rfl⟩
  · intro w a w' _ hs hstep
    cases threadsStep_cases hstep with
    | act hpermits hnext => exact hs.step hnext
    | _ => exact hs

theorem threadsSound_of_reachable (h : (threads conf).Reachable w) : ThreadsSound w := by
  refine h.invariant ?_ fun w a w' hw hsound hstep => ?_
  · rintro w ⟨level, rfl⟩
    exact threadsSound_initial level
  · cases threadsStep_cases hstep with
    | start hlive hended => exact hsound.start hlive hended
    | exit => exact { hsound with }
    | finish hlive hexiting hidle hclean => exact hsound.finish hidle
    | act hpermits hnext =>
        exact hsound.act (ownership_of_reachable (state_of_threads hw)) hpermits hnext

/-! ## Flushes -/

/-- What is pending after a step was so before, or is retired by it. -/
theorem pending_before (hs : (handoff conf).Reachable s) (hstep : step conf s a = some s')
    {p : ProducerId} (h : Pending s' p) : Pending s p ∨ retires s a = some p := by
  by_contra hboth
  obtain ⟨hpending, hretires⟩ := not_or.mp hboth
  have hcount := pending_step hs hstep p
  rw [countP_toList, countP_toList, if_neg hretires, State.pending, State.pending, if_pos h,
    if_neg hpending] at hcount
  omega

theorem not_pending_of_push (hs : (handoff conf).Reachable s) (hstep : step conf s a = some s')
    {p : ProducerId} (h : pushes s a = some p) : ¬ Pending s' p := by
  cases a with
  | consumer =>
      exact (consumerStep_cases hstep).not_pending (ownership_of_reachable hs)
        (pushes_consumer.mp h)
  | _ => contradiction

/-- A flush is called before it goes on. -/
theorem calling_before (hstep : step conf s a = some s') (h : (s'.pc f).before? ≠ none) :
    (s.pc f).before? ≠ none ∨ a = .call f .flush := by
  obtain ⟨before, hb⟩ := Option.ne_none_iff_exists'.mp h
  by_cases hcall : ∀ call, a ≠ .call f call
  · refine .inl ?_
    rw [step_before? hstep hcall hb]
    simp
  · obtain ⟨call, ha⟩ := not_forall_not.mp hcall
    subst ha
    cases step_kind hstep with
    | call _ _ hidle =>
        rw [State.setPc_pc_self] at hb
        cases call with
        | flush => exact .inr rfl
        | release pages =>
            simp only [Call.entry] at hb
            split at hb <;> contradiction
        | _ => contradiction
    | thread t ha hbusy hthread =>
        obtain rfl := Option.some.inj ha
        simp [step, hbusy] at hstep

theorem flushReturns_iff : flushReturns s a = some f ↔ a = .thread f ∧
    s.lifecycle = .running ∧ ∃ target before, s.pc f = .flushLeave target before := by
  constructor
  · intro h
    cases a with
    | thread t =>
        simp only [flushReturns] at h
        split at h
        · rename_i target before hpc
          split at h
          case isTrue hrunning =>
            obtain rfl := Option.some.inj h
            exact ⟨rfl, hrunning, target, before, hpc⟩
          case isFalse => contradiction
        · contradiction
    | _ => contradiction
  · rintro ⟨rfl, hrunning, target, before, hpc⟩
    simp [flushReturns, hpc, hrunning]

/-- A producer that waits for its push was retired by a thread that ended after the flushes that
returned were called, and a flush under way waits for it unless this thread ended later still. -/
structure FlushBooks (w : Threads) : Prop where
  chained : ∀ f g, w.called f ⊆ w.called g ∨ w.called g ⊆ w.called f
  ordered : ∀ f, w.called f ⊆ w.settled ∨ w.settled ⊆ w.called f
  flushing : w.state.lifecycle = .running → ∀ f, (w.state.pc f).before? ≠ none → ∀ p,
    Pending w.state p → (∃ u, u ∉ w.called f ∧ p ∈ w.retired u) ∨ Awaits w.state f p
  settled : ∀ p, Pending w.state p → ∃ u, u ∉ w.settled ∧ p ∈ w.retired u

theorem FlushBooks.act (h : FlushBooks w) (hsound : ThreadsSound w)
    (hs : (handoff conf).Reachable w.state) (hpermits : w.permits a = true)
    (hstep : Handoff.step conf w.state a = some s') : FlushBooks (w.next a s') := by
  -- whoever retires lives
  have hretirer : ∀ p, retires w.state a = some p →
      ∃ u, u ∈ w.live ∧ p ∈ (w.next a s').retired u := by
    intro p hp
    cases a with
    | thread t =>
        exact ⟨t, Threads.live_of_thread hpermits rfl, mem_retired_next.mpr (.inr ⟨rfl, hp⟩)⟩
    | _ => contradiction
  have hmore : ∀ p (ended : Finset ℕ), (∃ u, u ∉ ended ∧ p ∈ w.retired u) →
      ∃ u, u ∉ ended ∧ p ∈ (w.next a s').retired u := fun p ended ⟨u, hu, hp⟩ =>
    ⟨u, hu, mem_retired_next.mpr (.inl hp)⟩
  have hcalled : ∀ f, (w.next a s').called f = w.called f ∨ (w.next a s').called f = w.ended := by
    intro f
    by_cases ha : a = .call f .flush
    · exact .inr (if_pos ha)
    · exact .inl (if_neg ha)
  have hended : ∀ f, (w.next a s').called f ⊆ w.ended := fun f => by
    rcases hcalled f with heq | heq
    · exact heq ▸ hsound.called f
    · exact heq.subset
  have hsettled : (w.next a s').settled = w.settled ∨
      ∃ f, flushReturns w.state a = some f ∧ (w.next a s').settled = w.settled ∪ w.called f := by
    simp only [Threads.next]
    cases flushReturns w.state a with
    | none => exact .inl (Finset.union_empty w.settled)
    | some f => exact .inr ⟨f, rfl, rfl⟩
  have hsubset : (w.next a s').settled ⊆ w.ended := by
    rcases hsettled with heq | ⟨f, -, heq⟩
    · exact heq ▸ hsound.settled
    · exact heq ▸ Finset.union_subset hsound.settled (hsound.called f)
  refine
    { chained := fun f g => ?_
      ordered := fun f => ?_
      flushing := fun hrunning f hf p hp => ?_
      settled := fun p hp => ?_ }
  · rcases hcalled f with hf | hf
    · rcases hcalled g with hg | hg
      · rw [hf, hg]
        exact h.chained f g
      · exact .inl (hg ▸ hended f)
    · exact .inr (hf ▸ hended g)
  · rcases hcalled f with hf | hf
    · rw [hf]
      rcases hsettled with hset | ⟨g, -, hset⟩
      · rw [hset]
        exact h.ordered f
      · rw [hset]
        rcases h.ordered f with hle | hle
        · exact .inl (hle.trans Finset.subset_union_left)
        · exact (h.chained f g).imp (fun hfg => hfg.trans Finset.subset_union_right)
            (Finset.union_subset hle)
    · exact .inr (hf ▸ hsubset)
  · rcases pending_before hs hstep hp with hpending | hretires
    · by_cases ha : a = .call f .flush
      · subst ha
        have hwait : Awaits s' f p := @awaits_of_call conf _ _ _ _ hpending hstep
        exact .inr hwait
      · have hcalling := (calling_before hstep hf).resolve_right ha
        rw [show (w.next a s').called f = w.called f from if_neg ha]
        rcases h.flushing (running_step hs hstep hrunning) f hcalling p hpending with hold | hwait
        · exact .inl (hmore p (w.called f) hold)
        · refine .inr ((hwait.step hs (running_step hs hstep hrunning) hstep).resolve_left ?_)
          exact fun hpush => not_pending_of_push hs hstep hpush hp
    · obtain ⟨u, hlive, hmem⟩ := hretirer p hretires
      exact .inl ⟨u, fun hu => hsound.apart u (hended f hu) hlive, hmem⟩
  · rcases pending_before hs hstep hp with hpending | hretires
    · rcases hsettled with hset | ⟨f, hreturns, hset⟩
      · rw [hset]
        exact hmore p w.settled (h.settled p hpending)
      · rw [hset]
        obtain ⟨-, hrunning, target, before, hpc⟩ := flushReturns_iff.mp hreturns
        rcases h.ordered f with hle | hle
        · rw [Finset.union_eq_left.mpr hle]
          exact hmore p w.settled (h.settled p hpending)
        · rw [Finset.union_eq_right.mpr hle]
          -- the flush that returns would still wait for the push
          refine hmore p (w.called f) ((h.flushing hrunning f ?_ p hpending).resolve_right ?_)
          · simp [hpc, ThreadPc.before?]
          · exact fun hwait => hwait.stays hs target before hpc
    · obtain ⟨u, hlive, hmem⟩ := hretirer p hretires
      exact ⟨u, fun hu => hsound.apart u (hsubset hu) hlive, hmem⟩

theorem flushBooks_of_reachable (h : (threads conf).Reachable w) : FlushBooks w := by
  refine h.invariant ?_ fun w a w' hw hbooks hstep => ?_
  · rintro w ⟨level, rfl⟩
    refine
      { chained := fun f g => .inl subset_rfl
        ordered := fun f => .inl subset_rfl
        flushing := fun _ f hf => absurd rfl hf
        settled := fun p hp => ?_ }
    rcases hp with hretired | hpush
    · contradiction
    · contradiction
  · cases threadsStep_cases hstep with
    | act hpermits hnext =>
        exact hbooks.act (threadsSound_of_reachable hw) (state_of_threads hw) hpermits hnext
    | _ => exact { hbooks with }

/-! ## Threads that acquire in time -/

theorem Threads.clean_iff : w.clean t = true ↔
    ∀ pages, w.constructed t pages = true → w.destroyed t pages = true := by
  simp only [Threads.clean, List.all_cons, List.all_nil, Bool.and_true, Bool.and_eq_true,
    Bool.or_eq_true, Bool.not_eq_true']
  constructor
  · rintro ⟨hnormal, hhuge⟩ pages hconstructed
    cases pages with
    | normal => exact hnormal.resolve_left (by simp [hconstructed])
    | huge => exact hhuge.resolve_left (by simp [hconstructed])
  · intro h
    have hpages : ∀ pages, w.constructed t pages = false ∨ w.destroyed t pages = true :=
      fun pages => (Bool.eq_false_or_eq_true (w.constructed t pages)).symm.imp_right (h pages)
    exact ⟨hpages .normal, hpages .huge⟩

/-- Once its `tls_state` was destroyed a thread holds no producer of that kind, but for the moment
of the retirement, and who has ended holds none at all. -/
structure Emptied (w : Threads) : Prop where
  destroyed : ∀ t pages, w.destroyed t pages = true →
    w.state.tls t pages = none ∨ ∃ i, w.state.pc t = .retire pages i
  ended : ∀ t ∈ w.ended, ∀ pages, w.state.tls t pages = none

/-- The destructor of `tls_state` lets go of the producer. -/
theorem released_step (hstep : step conf s a = some s') (ha : a = .call t (.release pages)) :
    s'.tls t pages = none ∨ ∃ i, s'.pc t = .retire pages i := by
  subst ha
  cases step_kind hstep with
  | call _ _ hidle =>
      rw [State.setPc_pc_self, Call.entry]
      cases htls : s.tls t pages with
      | none => exact .inl htls
      | some i => exact .inr ⟨i, rfl⟩
  | thread _ ha hbusy =>
      obtain rfl := Option.some.inj ha
      simp [step, hbusy] at hstep

theorem Emptied.act (h : Emptied w) (hsound : ThreadsSound w) (hown : Ownership conf w.state)
    (hpermits : w.permits a = true) (htime : w.InTime conf (.act a))
    (hstep : Handoff.step conf w.state a = some s') : Emptied (w.next a s') := by
  refine { destroyed := fun t pages hd => ?_, ended := fun t ht pages => ?_ }
  · by_cases ha : a = .call t (.release pages)
    · exact released_step hstep ha
    · have hold : w.destroyed t pages = true := by simpa [Threads.next, ha] using hd
      rcases h.destroyed t pages hold with hnone | ⟨i, hpc⟩
      · refine .inl ?_
        cases hold_step hown hstep with
        | keep htls => exact (congrFun (congrFun htls t) pages).trans hnone
        | @acquire t' pages' purpose i hact hpc _ hsome hother =>
            by_cases hp : t = t' ∧ pages = pages'
            · obtain ⟨rfl, rfl⟩ := hp
              have hvacant : w.state.vacant conf pages := by
                refine vacant_of_acquired hpc (hact ▸ hstep) fun hsame => ?_
                rw [hsame, hnone] at hsome
                contradiction
              rw [htime t pages purpose (congrArg _ hact) hpc hvacant] at hold
              contradiction
            · exact (hother t pages (not_and_or.mp hp)).trans hnone
        | @retire t' pages' i _ _ _ hnow hother =>
            by_cases hp : t = t' ∧ pages = pages'
            · obtain ⟨rfl, rfl⟩ := hp
              exact hnow
            · exact (hother t pages (not_and_or.mp hp)).trans hnone
      · by_cases ht : a.thread? = some t
        · refine .inl ?_
          cases step_kind hstep with
          | call t' call hidle =>
              obtain rfl := Option.some.inj ht
              rw [hpc] at hidle
              contradiction
          | thread t' ha' hbusy hthread =>
              obtain rfl := Option.some.inj (ha'.symm.trans ht)
              exact hthread.released hpc
          | consumer => contradiction
        · exact .inr ⟨i, (step_other hstep ht).1.trans hpc⟩
  · have hne : a.thread? ≠ some t := fun ha =>
      hsound.apart t ht (Threads.live_of_thread hpermits ha)
    exact (congrFun (step_other hstep hne).2 pages).trans (h.ended t ht pages)

theorem emptied_of_inTime (h : (threads conf).ReachableWhere (Threads.InTime conf) w) :
    Emptied w := by
  refine h.invariant ?_ fun w a w' hw hemptied htime hstep => ?_
  · rintro w ⟨level, rfl⟩
    exact { destroyed := fun _ _ _ => .inl rfl, ended := fun _ _ _ => rfl }
  · have hsound := threadsSound_of_reachable hw
    cases threadsStep_cases hstep with
    | act hpermits hnext =>
        exact hemptied.act hsound (ownership_of_reachable (state_of_threads hw)) hpermits htime
          hnext
    | @finish t hlive hexiting hidle hclean =>
        refine { hemptied with ended := fun t' ht' pages => ?_ }
        rcases Finset.mem_insert.mp ht' with rfl | ht'
        · -- what it ever held was constructed, so its destructor has run
          by_contra hne
          have hdestroyed :=
            Threads.clean_iff.mp hclean pages (hsound.constructed t' pages (.inr hne))
          rcases hemptied.destroyed t' pages hdestroyed with hnone | ⟨i, hpc⟩
          · exact hne hnone
          · exact absurd (hidle.symm.trans hpc) (by simp)
        · exact hemptied.ended t' ht' pages
    | start | exit => exact { hemptied with }

/-! ## What is in use -/

/-- The thread uses the producer: it holds it or has retired it. -/
def Uses (w : Threads) (pages : Pages) (i u : ℕ) : Prop :=
  w.state.tls u pages = some i ∨ .pooled pages i ∈ w.retired u

/-- A producer that is not free is used by a live thread, or by one that ended since. -/
theorem user_of_inUse (h : (threads conf).ReachableWhere (Threads.InTime conf) w) {i : ℕ}
    (hi : i < (w.state.registry pages).count)
    (hfree : (w.state.producer (.pooled pages i)).lifecycle ≠ .free) :
    ∃ u ∈ w.live ∪ (w.ended \ w.settled), Uses w pages i u := by
  have hsound := threadsSound_of_reachable h.reachable
  cases hlife : (w.state.producer (.pooled pages i)).lifecycle with
  | free => exact absurd hlife hfree
  | active =>
      have hown := ownership_of_reachable (state_of_threads h.reachable)
      obtain ⟨u, hu⟩ := (hown.registry pages).holding.owned i hi hlife
      refine ⟨u, Finset.mem_union_left _ ?_, .inl hu⟩
      by_contra hlive
      have hnone : w.state.tls u pages = none := by
        by_cases hended : u ∈ w.ended
        · exact (emptied_of_inTime h).ended u hended pages
        · exact (hsound.known u hlive hended).1 pages
      rw [hnone] at hu
      contradiction
  | retired =>
      obtain ⟨u, hu, hmem⟩ := (flushBooks_of_reachable h.reachable).settled _ (.inl hlife)
      refine ⟨u, Finset.mem_union.mpr ?_, .inr hmem⟩
      by_cases hlive : u ∈ w.live
      · exact .inl hlive
      · refine .inr (Finset.mem_sdiff.mpr ⟨?_, hu⟩)
        by_contra hended
        rw [(hsound.known u hlive hended).2] at hmem
        contradiction

/-- A thread uses one producer of a kind. -/
theorem use_unique (h : (threads conf).ReachableWhere (Threads.InTime conf) w) {u i j : ℕ}
    (hi : Uses w pages i u) (hj : Uses w pages j u) : i = j := by
  have hsound := threadsSound_of_reachable h.reachable
  -- what it retired it holds no more
  have hleft : ∀ {i j : ℕ}, w.state.tls u pages = some i → .pooled pages j ∉ w.retired u := by
    intro i j htls hmem
    obtain ⟨hdestroyed, hnot⟩ := hsound.once u pages j hmem
    rcases (emptied_of_inTime h).destroyed u pages hdestroyed with hnone | ⟨k, hpc⟩
    · rw [hnone] at htls
      contradiction
    · exact hnot k hpc
  rcases hi with hi | hi
  · rcases hj with hj | hj
    · exact Option.some.inj (hi.symm.trans hj)
    · exact absurd hj (hleft hi)
  · rcases hj with hj | hj
    · exact absurd hi (hleft hj)
    · exact hsound.one u pages i j hi hj

/-- Whatever order a thread's destructors run in, it retires what it acquired in time. -/
theorem exitContract_of_inTime (h : (threads conf).ReachableWhere (Threads.InTime conf) w) :
    ExitContract w := by
  have hsound := threadsSound_of_reachable h.reachable
  refine { retired := fun t ht p => ?_, bounded := fun pages => ?_ }
  · have hheld : ¬ Held w.state t p := by
      cases p with
      | single => exact id
      | pooled pages i =>
          rw [held_pooled, (emptied_of_inTime h).ended t ht pages]
          simp
    rw [hsound.owed t p, if_neg hheld]
    rfl
  · calc w.state.inUse pages
        ≤ (w.live ∪ (w.ended \ w.settled)).card := by
          refine Finset.card_le_card_of_forall_subsingleton (Uses w pages) (fun i hi => ?_)
            fun u _ i hi j hj => use_unique h hi.2 hj.2
          obtain ⟨hlt, hfree⟩ := Finset.mem_filter.mp hi
          exact user_of_inUse h (Finset.mem_range.mp hlt) hfree
      _ ≤ w.live.card + (w.ended \ w.settled).card := Finset.card_union_le ..

/-! ## Threads that acquire too late -/

/-- The thread holds a producer that nothing will retire. -/
structure Late (w : Threads) (t : ℕ) (pages : Pages) (i : ℕ) : Prop where
  destroyed : w.destroyed t pages = true
  holds : w.state.tls t pages = some i
  stays : ∀ j, w.state.pc t ≠ .retire pages j

theorem Late.step {a : ThreadAction} {i : ℕ} (h : Late w t pages i)
    (hw : (threads conf).Reachable w) (hstep : (threads conf).step w a = some w') :
    Late w' t pages i := by
  cases threadsStep_cases hstep with
  | @act a s' hpermits hnext =>
      have hown := ownership_of_reachable (state_of_threads hw)
      refine
        { destroyed := Bool.or_eq_true_iff.mpr (.inl h.destroyed)
          holds := ?_
          stays := fun j hpc => ?_ }
      · have hholds := h.holds
        change s'.tls t pages = some i
        cases hold_step hown hnext with
        | keep htls => rwa [htls]
        | @acquire t' pages' purpose j _ _ hnone _ hother =>
            by_cases hp : t = t' ∧ pages = pages'
            · obtain ⟨rfl, rfl⟩ := hp
              rw [hnone] at hholds
              contradiction
            · rwa [hother t pages (not_and_or.mp hp)]
        | @retire t' pages' j _ hpc _ _ hother =>
            by_cases hp : t = t' ∧ pages = pages'
            · obtain ⟨rfl, rfl⟩ := hp
              exact absurd hpc (h.stays j)
            · rwa [hother t pages (not_and_or.mp hp)]
      · rcases retire_step hnext hpc with ⟨hpc', -⟩ | rfl
        · exact h.stays j hpc'
        · have hfresh := Threads.fresh_of_release hpermits
          rw [h.destroyed] at hfresh
          contradiction
  | _ => exact { h with }

theorem Late.run {actions : List ThreadAction} {i : ℕ} (h : Late w t pages i)
    (hw : (threads conf).Reachable w) (hrun : (threads conf).run w actions = some w') :
    Late w' t pages i := by
  induction actions generalizing w with
  | nil =>
      obtain rfl : w = w' := by simpa [System.run] using hrun
      exact h
  | cons a actions ih =>
      obtain ⟨next, hnext, hrest⟩ := Option.bind_eq_some_iff.mp hrun
      exact ih (h.step hw hnext) (hw.step hnext) hrest

/-- A step that is not in time makes its thread hold a producer for good. -/
theorem late_of_not_inTime {a : ThreadAction}
    (hstep : (threads conf).step w a = some w') (h : ¬ w.InTime conf a) :
    ∃ t pages i, a = .act (.thread t) ∧ Late w' t pages i := by
  simp only [Threads.InTime, not_forall, Bool.not_eq_false] at h
  obtain ⟨t, pages, purpose, rfl, hpc, hvacant, hdestroyed⟩ := h
  cases threadsStep_cases hstep with
  | @act _ s' hpermits hnext =>
      obtain ⟨i, hi⟩ := Option.ne_none_iff_exists'.mp (acquired_of_vacant hpc hnext hvacant)
      refine ⟨t, pages, i, rfl, Bool.or_eq_true_iff.mpr (.inl hdestroyed), hi, fun j hj => ?_⟩
      rcases retire_step hnext hj with ⟨-, hne⟩ | heq
      · exact hne rfl
      · contradiction

/-- What a thread holds when it ends it never retires. -/
theorem Late.not_exitContract {i : ℕ} (h : Late w t pages i) (hw : (threads conf).Reachable w)
    (ht : t ∈ w.ended) : ¬ ExitContract w := by
  intro hcontract
  have howed := (threadsSound_of_reachable hw).owed t (.pooled pages i)
  rw [if_pos (held_pooled.mpr h.holds), hcontract.retired t ht] at howed
  omega

/-- Threads that acquire in time leave nothing behind, whatever the order of their destructors,
and a thread that does not leaves a producer behind when it ends. -/
theorem exitContract_iff_inTime (h : (threads conf).Reachable w) :
    ((threads conf).ReachableWhere (Threads.InTime conf) w → ExitContract w) ∧
      ∀ a w', (threads conf).step w a = some w' → ¬ w.InTime conf a →
        ∃ t, a = .act (.thread t) ∧ ∀ actions w'', (threads conf).run w' actions = some w'' →
          t ∈ w''.ended → ¬ ExitContract w'' := by
  refine ⟨exitContract_of_inTime, fun a w' hstep htime => ?_⟩
  obtain ⟨t, pages, i, ha, hlate⟩ := late_of_not_inTime hstep htime
  refine ⟨t, ha, fun actions w'' hrun ht => ?_⟩
  have hreach := (h.step hstep).run hrun
  exact (hlate.run (h.step hstep) hrun).not_exitContract hreach ht

/-- No thread has started yet. -/
def demoThreads : Threads := { state := State.started demo fun _ => .info }

/-- Threads 0 and 1 start, thread 0 logs and then runs its destructors. -/
def demoExiting : List ThreadAction :=
  List.flatten [[.start 0, .start 1], (demoLogged.take 8).map .act, [.exit 0]]

/-- Thread 1 flushes, and the flush returns. -/
def demoFlushed (n : ℕ) : List Action :=
  List.flatten
    [[.call 1 .flush], List.replicate 5 (.thread 1), List.replicate n .consumer,
      List.replicate 2 (.thread 1)]

/-- A destructor logs before the one of `tls_state` runs. -/
def demoEarly : List ThreadAction :=
  List.flatten
    [demoExiting,
      [.call 0 (.logUnchecked 0), .thread 0, .produce 0 .written, .thread 0, .thread 0].map .act,
      (demoLogged.drop 8).map .act, [.finish 0], (demoFlushed 38).map .act]

/-- Thread 0 has retired its producer, and the flush has freed it. -/
theorem exitContract_early :
    ∃ w, (threads demo).Reachable w ∧ w.ended = {0} ∧ w.settled = {0} ∧
      w.acquired 0 = [.pooled .normal 0] ∧ ExitContract w := by
  have hrun : ((threads demo).runWhere (Threads.InTime demo) demoThreads demoEarly).map
      (fun w => (w.ended, w.settled, w.acquired 0)) = some ({0}, {0}, [.pooled .normal 0]) := by
    decide +kernel
  obtain ⟨w, hw, hfacts⟩ := Option.map_eq_some_iff.mp hrun
  simp only [Prod.mk.injEq] at hfacts
  obtain ⟨hended, hsettled, hacquired⟩ := hfacts
  have hinitial : (threads demo).ReachableWhere (Threads.InTime demo) demoThreads :=
    .initial ⟨_, rfl⟩
  have htime := hinitial.runWhere hw
  exact ⟨w, htime.reachable, hended, hsettled, hacquired,
    (exitContract_iff_inTime htime.reachable).1 htime⟩

/-- A destructor logs after the one of `tls_state` has run, and so does thread 1 in the end. -/
def demoLeak : List ThreadAction :=
  List.flatten
    [demoExiting, (demoLogged.drop 8).map .act, (demoLogged.take 8).map .act, [.finish 0],
      (demoFlushed 52).map .act,
      [.call 1 (.logUnchecked 0), .thread 1, .thread 1].map .act]

/-- Thread 0 has ended with a producer that it never retires: one thread lives, and two producers
are in use. -/
theorem not_exitContract_leak :
    ∃ w, (threads demo).Reachable w ∧ w.acquired 0 = [.pooled .normal 0, .pooled .normal 1] ∧
      w.retired 0 = [.pooled .normal 0] ∧ w.live = {1} ∧ w.ended = {0} ∧ w.settled = {0} ∧
      w.state.inUse .normal = 2 ∧ ¬ ExitContract w := by
  have hrun : ((threads demo).run demoThreads demoLeak).map (fun w =>
      ((w.acquired 0, w.retired 0), w.live, w.ended, w.settled, w.state.inUse .normal)) =
        some (([.pooled .normal 0, .pooled .normal 1], [.pooled .normal 0]), {1}, {0}, {0}, 2) := by
    decide +kernel
  obtain ⟨w, hw, hfacts⟩ := Option.map_eq_some_iff.mp hrun
  simp only [Prod.mk.injEq] at hfacts
  obtain ⟨⟨hacquired, hretired⟩, hlive, hended, hsettled, huse⟩ := hfacts
  have hinitial : (threads demo).Reachable demoThreads := .initial ⟨_, rfl⟩
  refine ⟨w, hinitial.run hw, hacquired, hretired, hlive, hended, hsettled, huse, fun h => ?_⟩
  have hcount := h.retired 0 (by simp [hended]) (.pooled .normal 1)
  rw [hacquired, hretired] at hcount
  exact absurd hcount (by decide)

end Unlog.Handoff
