import Unlog.Handoff.Balance

/-! # Reading the counters

`stats` walks over the producers while the threads go on. -/

namespace Unlog.Handoff

variable {conf : Sealed} {s s' s₀ : State} {t : ℕ} {p : ProducerId} {c : Counter}

/-! ## The producers there are -/

/-- `single_normal_` and `single_huge_`, as far as they were made. -/
def Sealed.singles (conf : Sealed) : Finset ProducerId :=
  (({.normal, .huge} : Finset Pages).filter fun pages => conf.hasSingle pages).image .single

/-- The producers in the slots of a registry. -/
def State.pooled (s : State) (pages : Pages) : Finset ProducerId :=
  (Finset.range (s.registry pages).count).image (.pooled pages)

def State.made (s : State) (conf : Sealed) : Finset ProducerId :=
  conf.singles ∪ (s.pooled .normal ∪ s.pooled .huge)

/-- A counter summed over all producers. -/
def State.total (s : State) (conf : Sealed) (c : Counter) : ℕ :=
  ∑ p ∈ s.made conf, (s.producer p).counter c

theorem mem_made : p ∈ s.made conf ↔ Made conf s p := by
  cases p with
  | single pages => cases pages <;> simp [State.made, Sealed.singles, State.pooled, Made]
  | pooled pages index => cases pages <;> simp [State.made, Sealed.singles, State.pooled, Made]

theorem made_subset {a : Action} (hown : Ownership conf s) (hstep : step conf s a = some s') :
    s.made conf ⊆ s'.made conf := fun _ hp => mem_made.mpr (made_step hown hstep (mem_made.mp hp))

/-! ## Counters only grow -/

theorem counter_le {a : Action} (hstep : step conf s a = some s') (c : Counter) (p : ProducerId) :
    (s.producer p).counter c ≤ (s'.producer p).counter c := by
  rcases step_cases hstep with ⟨t, hthread⟩ | hconsumer
  · rw [hthread.counter c p]
    exact Nat.le_add_right ..
  · rw [hconsumer.counter]

theorem total_le {a : Action} (hown : Ownership conf s) (hstep : step conf s a = some s')
    (c : Counter) : s.total conf c ≤ s'.total conf c :=
  calc s.total conf c
      ≤ ∑ p ∈ s.made conf, (s'.producer p).counter c :=
        Finset.sum_le_sum fun p _ => counter_le hstep c p
    _ ≤ s'.total conf c := Finset.sum_le_sum_of_subset (made_subset hown hstep)

theorem total_le_of_run {actions : List Action} (h : (handoff conf).Reachable s)
    (hrun : (handoff conf).run s actions = some s') (c : Counter) :
    s.total conf c ≤ s'.total conf c := by
  induction actions generalizing s with
  | nil =>
      obtain rfl : s = s' := by simpa [Library.System.run] using hrun
      exact Nat.le_refl _
  | cons a actions ih =>
      obtain ⟨next, hnext, hrest⟩ := Option.bind_eq_some_iff.mp hrun
      exact (total_le (ownership_of_reachable h) hnext c).trans (ih (h.step hnext) hrest)

/-! ## The walk -/

/-- What `stats` returns. -/
structure ProducerStats where
  emitted : ℕ := 0
  dropped : ℕ := 0
  truncated : ℕ := 0
  deriving DecidableEq, Repr

namespace ProducerStats

variable (stats : ProducerStats)

def get : Counter → ℕ
  | .emitted => stats.emitted
  | .dropped => stats.dropped
  | .truncated => stats.truncated

def add (n : ℕ) : Counter → ProducerStats
  | .emitted => { stats with emitted := stats.emitted + n }
  | .dropped => { stats with dropped := stats.dropped + n }
  | .truncated => { stats with truncated := stats.truncated + n }

theorem get_add (n : ℕ) (c c' : Counter) :
    (stats.add n c).get c' = stats.get c' + if c = c' then n else 0 := by
  cases c <;> cases c' <;> simp [add, get]

end ProducerStats

/-- The order in which a producer's `stats` loads its counters. -/
def Counter.next? : Counter → Option Counter
  | .emitted => some .dropped
  | .dropped => some .truncated
  | .truncated => none

def Counter.rank : Counter → ℕ
  | .emitted => 0
  | .dropped => 1
  | .truncated => 2

/-- The next access of `stats`. -/
inductive StatsPc where
  | pass (cursor : Cursor)
  | load (resume : Cursor) (producer : ProducerId) (counter : Counter)
  deriving DecidableEq, Repr

/-- What follows the load of a counter. -/
def StatsPc.next (resume : Cursor) (p : ProducerId) (counter : Counter) : StatsPc :=
  match counter.next? with
  | some counter' => .load resume p counter'
  | none => .pass resume

/-- A call of `stats`, with the sums so far. -/
structure StatsCall where
  pc : StatsPc := .pass Cursor.first
  result : ProducerStats := {}
  deriving DecidableEq, Repr

def StatsCall.returned (call : StatsCall) : Prop := call.pc = .pass .done

def statsStep (conf : Sealed) (s : State) (call : StatsCall) : Option StatsCall :=
  match call.pc with
  | .pass (.single pages) =>
    if conf.hasSingle pages then
      some { call with pc := .load (Cursor.afterSingle pages) (.single pages) .emitted }
    else some { call with pc := .pass (Cursor.afterSingle pages) }
  | .pass (.count pages) =>
    some { call with pc := .pass (.slot pages (s.registry pages).count 0) }
  | .pass (.slot pages count index) =>
    if index < count then
      match (s.registry pages).slots index with
      | none => none
      | some slot =>
        some { call with pc := .load (.slot pages count (index + 1)) (.pooled pages slot) .emitted }
    else some { call with pc := .pass (Cursor.afterRegistry pages) }
  -- `stats` follows no ready bits
  | .pass _ => none
  | .load resume p counter =>
    some {
      pc := .next resume p counter
      result := call.result.add ((s.producer p).counter counter) counter }

/-- A call of `stats` that begins in `s₀`, among the steps of all the others. -/
def statsCall (conf : Sealed) (s₀ : State) :
    Library.System (State × StatsCall) (Option Action) where
  Initial x := x = (s₀, {})
  step x
    | some a => (step conf x.1 a).map fun s => (s, x.2)
    | none => (statsStep conf x.1 x.2).map fun call => (x.1, call)

/-! ## What a call has read

For one counter: the producers whose counter was added, each once. -/

def StatsPc.cursor : StatsPc → Cursor
  | .pass cursor => cursor
  | .load resume _ _ => resume

/-- The producer the call is at, as long as it has not loaded the counter. -/
def StatsPc.unread? (c : Counter) : StatsPc → Option ProducerId
  | .pass _ => none
  | .load _ p counter => if counter.rank ≤ c.rank then some p else none

/-- `seen` are the producers whose counter `c` the call has added. -/
structure Sighted (conf : Sealed) (s₀ s : State) (call : StatsCall) (c : Counter)
    (seen : Finset ProducerId) : Prop where
  low : ∑ p ∈ seen, (s₀.producer p).counter c ≤ call.result.get c
  high : call.result.get c ≤ ∑ p ∈ seen, (s.producer p).counter c
  made : ∀ p ∈ seen, Made conf s p
  here : ∀ resume p counter, call.pc = .load resume p counter → Made conf s p ∧ ¬ resume.Ahead p
  behind : ∀ p ∈ seen, ¬ call.pc.cursor.Ahead p ∧ call.pc.unread? c ≠ some p
  covers : ∀ p, Made conf s₀ p →
    p ∈ seen ∨ call.pc.cursor.Ahead p ∨ call.pc.unread? c = some p
  counters : ∀ p, (s₀.producer p).counter c ≤ (s.producer p).counter c
  counts : ∀ pages, (s₀.registry pages).count ≤ (s.registry pages).count
  slots : ∀ pages count index, call.pc.cursor = .slot pages count index →
    (s₀.registry pages).count ≤ count ∧ count ≤ (s.registry pages).count

theorem sighted_start : Sighted conf s₀ s₀ {} c ∅ where
  low := Nat.zero_le _
  high := by cases c <;> exact Nat.le_refl _
  made := by simp
  here := nofun
  behind := by simp
  covers p _ := .inr (.inl (ahead_first p))
  counters _ := Nat.le_refl _
  counts _ := Nat.le_refl _
  slots := nofun

/-- The threads and the consumer go on meanwhile. -/
theorem Sighted.act {call : StatsCall} {seen : Finset ProducerId} {a : Action}
    (h : Sighted conf s₀ s call c seen) (hown : Ownership conf s)
    (hstep : step conf s a = some s') : Sighted conf s₀ s' call c seen where
  low := h.low
  high := h.high.trans (Finset.sum_le_sum fun p _ => counter_le hstep c p)
  made p hp := made_step hown hstep (h.made p hp)
  here resume p counter hpc :=
    ⟨made_step hown hstep (h.here resume p counter hpc).1, (h.here resume p counter hpc).2⟩
  behind := h.behind
  covers := h.covers
  counters p := (h.counters p).trans (counter_le hstep c p)
  counts pages := (h.counts pages).trans (count_le hown hstep pages)
  slots pages count index hpc := by
    obtain ⟨hlow, hhigh⟩ := h.slots pages count index hpc
    exact ⟨hlow, hhigh.trans (count_le hown hstep pages)⟩

/-! ## Its own steps -/

section Back

variable {pages : Pages} {count index : ℕ}

theorem ahead_of_afterSingle (h : (Cursor.afterSingle pages).Ahead p) :
    (Cursor.single pages).Ahead p ∧ p ≠ .single pages := by
  rcases p with (_ | _) | ⟨_ | _, i⟩ <;> cases pages <;>
    simp_all [Cursor.Ahead, Cursor.rank, ProducerId.rank, Cursor.Within, Cursor.afterSingle]

theorem ahead_of_slots (h : (Cursor.slot pages count 0).Ahead p) :
    (Cursor.count pages).Ahead p := by
  rcases p with (_ | _) | ⟨_ | _, i⟩ <;> cases pages <;>
    simp_all [Cursor.Ahead, Cursor.rank, ProducerId.rank, Cursor.Within]

theorem ahead_of_nextSlot (h : (Cursor.slot pages count (index + 1)).Ahead p) :
    (Cursor.slot pages count index).Ahead p ∧ p ≠ .pooled pages index := by
  rcases p with (_ | _) | ⟨_ | _, i⟩ <;> cases pages <;>
    simp_all [Cursor.Ahead, Cursor.rank, ProducerId.rank, Cursor.Within, ProducerId.index]
  all_goals omega

theorem ahead_of_afterRegistry (h : (Cursor.afterRegistry pages).Ahead p) :
    (Cursor.slot pages count index).Ahead p := by
  rcases p with (_ | _) | ⟨_ | _, i⟩ <;> cases pages <;>
    simp_all [Cursor.Ahead, Cursor.rank, ProducerId.rank, Cursor.afterRegistry]

end Back

variable {call : StatsCall} {seen : Finset ProducerId} {cursor next : Cursor}

/-- The call goes on without reading. -/
theorem Sighted.move (h : Sighted conf s₀ s call c seen) (hpc : call.pc = .pass cursor)
    (hback : ∀ p, next.Ahead p → cursor.Ahead p)
    (hforth : ∀ p, Made conf s₀ p → cursor.Ahead p → next.Ahead p)
    (hslots : ∀ pages count index, next = .slot pages count index →
      (s₀.registry pages).count ≤ count ∧ count ≤ (s.registry pages).count) :
    Sighted conf s₀ s { call with pc := .pass next } c seen where
  low := h.low
  high := h.high
  made := h.made
  here := nofun
  behind p hp := by
    have hbehind := (h.behind p hp).1
    rw [hpc] at hbehind
    exact ⟨fun hahead => hbehind (hback p hahead), by simp [StatsPc.unread?]⟩
  covers p hp := by
    rcases h.covers p hp with hseen | hahead | hunread
    · exact .inl hseen
    · rw [hpc] at hahead
      exact .inr (.inl (hforth p hp hahead))
    · rw [hpc] at hunread
      contradiction
  counters := h.counters
  counts := h.counts
  slots := hslots

/-- The call comes to a producer. -/
theorem Sighted.visit {q : ProducerId} (h : Sighted conf s₀ s call c seen)
    (hpc : call.pc = .pass cursor) (hq : Made conf s q) (hahead : cursor.Ahead q)
    (hback : ∀ p, next.Ahead p → cursor.Ahead p ∧ p ≠ q)
    (hforth : ∀ p, cursor.Ahead p → p ≠ q → next.Ahead p)
    (hslots : ∀ pages count index, next = .slot pages count index →
      (s₀.registry pages).count ≤ count ∧ count ≤ (s.registry pages).count) :
    Sighted conf s₀ s { call with pc := .load next q .emitted } c seen where
  low := h.low
  high := h.high
  made := h.made
  here resume p counter hload := by
    simp only [StatsPc.load.injEq] at hload
    obtain ⟨rfl, rfl, -⟩ := hload
    exact ⟨hq, fun hnext => (hback _ hnext).2 rfl⟩
  behind p hp := by
    have hbehind := (h.behind p hp).1
    rw [hpc] at hbehind
    refine ⟨fun hnext => hbehind (hback p hnext).1, ?_⟩
    simp only [StatsPc.unread?, Counter.rank, Nat.zero_le, if_true, ne_eq, Option.some.injEq]
    rintro rfl
    exact hbehind hahead
  covers p hp := by
    rcases h.covers p hp with hseen | hcursor | hunread
    · exact .inl hseen
    · rw [hpc] at hcursor
      by_cases hpq : p = q
      · exact .inr (.inr (by simp [StatsPc.unread?, Counter.rank, hpq]))
      · exact .inr (.inl (hforth p hcursor hpq))
    · rw [hpc] at hunread
      contradiction
  counters := h.counters
  counts := h.counts
  slots := hslots

theorem cursor_next {resume : Cursor} {counter : Counter} :
    (StatsPc.next resume p counter).cursor = resume := by
  cases counter <;> rfl

theorem next_eq_load {resume resume' : Cursor} {q : ProducerId} {counter counter' : Counter}
    (h : StatsPc.next resume p counter = .load resume' q counter') : resume' = resume ∧ q = p := by
  cases counter <;> simp_all [StatsPc.next, Counter.next?]

theorem unread?_next {resume : Cursor} {counter : Counter} :
    (StatsPc.next resume p counter).unread? c =
      if counter = c then none else (StatsPc.load resume p counter).unread? c := by
  cases counter <;> cases c <;> rfl

/-- The call loads a counter: that one is added to its sum, the others wait. -/
theorem Sighted.load {resume : Cursor} {q : ProducerId} {counter : Counter}
    (h : Sighted conf s₀ s call c seen) (hpc : call.pc = .load resume q counter) :
    ∃ seen', Sighted conf s₀ s
      ⟨.next resume q counter, call.result.add ((s.producer q).counter counter) counter⟩ c
      seen' := by
  have hbehind := h.behind
  have hcovers := h.covers
  rw [hpc] at hbehind hcovers
  have hhere : ∀ resume' p counter', StatsPc.next resume q counter = .load resume' p counter' →
      Made conf s p ∧ ¬ resume'.Ahead p := by
    intro resume' p counter' hnext
    obtain ⟨rfl, rfl⟩ := next_eq_load hnext
    exact h.here _ _ _ hpc
  have hslots : ∀ pages count index,
      (StatsPc.next resume q counter).cursor = .slot pages count index →
        (s₀.registry pages).count ≤ count ∧ count ≤ (s.registry pages).count := by
    intro pages count index hcursor
    rw [cursor_next] at hcursor
    exact h.slots pages count index (by rw [hpc]; exact hcursor)
  by_cases hc : counter = c
  · subst hc
    have hunread : (StatsPc.load resume q counter).unread? counter = some q :=
      if_pos (Nat.le_refl _)
    have hfresh : q ∉ seen := fun hq => (hbehind q hq).2 hunread
    refine ⟨insert q seen,
      { low := ?_
        high := ?_
        made := fun p hp => ?_
        here := hhere
        behind := fun p hp => ?_
        covers := fun p hp => ?_
        counters := h.counters
        counts := h.counts
        slots := hslots }⟩
    · rw [Finset.sum_insert hfresh, ProducerStats.get_add, if_pos rfl]
      have hlow := h.low
      have hcounter := h.counters q
      omega
    · rw [Finset.sum_insert hfresh, ProducerStats.get_add, if_pos rfl]
      have hhigh := h.high
      omega
    · rcases Finset.mem_insert.mp hp with rfl | hp
      · exact (h.here _ _ _ hpc).1
      · exact h.made p hp
    · rw [cursor_next, unread?_next, if_pos rfl]
      refine ⟨?_, by simp⟩
      rcases Finset.mem_insert.mp hp with rfl | hp
      · exact (h.here _ _ _ hpc).2
      · exact (hbehind p hp).1
    · rw [cursor_next]
      rcases hcovers p hp with hseen | hahead | hq
      · exact .inl (Finset.mem_insert_of_mem hseen)
      · exact .inr (.inl hahead)
      · rw [hunread] at hq
        obtain rfl := Option.some.inj hq
        exact .inl (Finset.mem_insert_self _ _)
  · refine ⟨seen,
      { low := ?_
        high := ?_
        made := h.made
        here := hhere
        behind := fun p hp => ?_
        covers := fun p hp => ?_
        counters := h.counters
        counts := h.counts
        slots := hslots }⟩
    · rw [ProducerStats.get_add, if_neg hc]
      exact h.low
    · rw [ProducerStats.get_add, if_neg hc]
      exact h.high
    · rw [cursor_next, unread?_next, if_neg hc]
      exact hbehind p hp
    · rw [cursor_next, unread?_next, if_neg hc]
      exact hcovers p hp

theorem Sighted.look {call' : StatsCall} (h : Sighted conf s₀ s call c seen)
    (hown : Ownership conf s) (hstep : statsStep conf s call = some call') :
    ∃ seen', Sighted conf s₀ s call' c seen' := by
  unfold statsStep at hstep
  split at hstep
  case h_1 pages hpc =>
    split at hstep
    case isTrue hsingle =>
      obtain rfl := Option.some.inj hstep
      refine ⟨seen, h.visit hpc hsingle ?_ (fun p => ahead_of_afterSingle)
        (fun p => ahead_afterSingle) ?_⟩
      · cases pages <;> exact .inr ⟨rfl, trivial⟩
      · cases pages <;> exact nofun
    case isFalse hsingle =>
      obtain rfl := Option.some.inj hstep
      refine ⟨seen, h.move hpc (fun p hp => (ahead_of_afterSingle hp).1)
        (fun p hp hahead => ahead_afterSingle hahead ?_) ?_⟩
      · rintro rfl
        exact hsingle hp
      · cases pages <;> exact nofun
  case h_2 pages hpc =>
    obtain rfl := Option.some.inj hstep
    refine ⟨seen, h.move hpc (fun p => ahead_of_slots)
      (fun p hp hahead => ahead_slots hahead fun i hi => ?_) fun pages' count index heq => ?_⟩
    · subst hi
      exact Nat.lt_of_lt_of_le hp (h.counts pages)
    · simp only [Cursor.slot.injEq] at heq
      obtain ⟨rfl, rfl, -⟩ := heq
      exact ⟨h.counts _, Nat.le_refl _⟩
  case h_3 pages count index hpc =>
    split at hstep
    case isTrue hlt =>
      split at hstep
      case h_1 => contradiction
      case h_2 slot hslot =>
        obtain rfl := Option.some.inj hstep
        obtain ⟨hlow, hhigh⟩ := h.slots pages count index (by rw [hpc]; rfl)
        have hcount : index < (s.registry pages).count := Nat.lt_of_lt_of_le hlt hhigh
        rw [(hown.registry pages).layout.slots_eq, if_pos hcount] at hslot
        obtain rfl := Option.some.inj hslot
        refine ⟨seen, h.visit hpc hcount ?_ (fun p => ahead_of_nextSlot)
          (fun p => ahead_nextSlot) fun pages' count' index' heq => ?_⟩
        · cases pages <;> exact .inr ⟨rfl, Nat.le_refl _, hlt⟩
        · simp only [Cursor.slot.injEq] at heq
          obtain ⟨rfl, rfl, -⟩ := heq
          exact ⟨hlow, hhigh⟩
    case isFalse hlt =>
      obtain rfl := Option.some.inj hstep
      refine ⟨seen, h.move hpc (fun p => ahead_of_afterRegistry)
        (fun p _ hahead => ahead_afterSlots hahead (Nat.le_of_not_lt hlt)) ?_⟩
      cases pages <;> exact nofun
  case h_4 => contradiction
  case h_5 resume p counter hpc =>
    obtain rfl := Option.some.inj hstep
    exact h.load hpc

/-- What holds beside a call of `stats`. -/
theorem sighted_of_reachable (h₀ : (handoff conf).Reachable s₀)
    (h : (statsCall conf s₀).Reachable (s, call)) (c : Counter) :
    (handoff conf).Reachable s ∧ ∃ seen, Sighted conf s₀ s call c seen := by
  refine h.invariant (I := fun x => (handoff conf).Reachable x.1 ∧
    ∃ seen, Sighted conf s₀ x.1 x.2 c seen) ?_ ?_
  · rintro _ rfl
    exact ⟨h₀, ∅, sighted_start⟩
  · rintro ⟨s, call⟩ a ⟨s', call'⟩ - ⟨hreach, seen, hseen⟩ hstep
    have hown := ownership_of_reachable hreach
    cases a with
    | some a =>
        obtain ⟨next, hnext, heq⟩ := Option.map_eq_some_iff.mp hstep
        obtain ⟨rfl, rfl⟩ := Prod.mk.inj heq
        exact ⟨hreach.step hnext, seen, hseen.act hown hnext⟩
    | none =>
        obtain ⟨next, hnext, heq⟩ := Option.map_eq_some_iff.mp hstep
        obtain ⟨rfl, rfl⟩ := Prod.mk.inj heq
        exact ⟨hreach, hseen.look hown hnext⟩

theorem reachable_of_statsCall (h₀ : (handoff conf).Reachable s₀)
    (h : (statsCall conf s₀).Reachable (s, call)) : (handoff conf).Reachable s :=
  (sighted_of_reachable h₀ h .emitted).1

/-- A call returns no less than the counters showed when it began, and no more than they show
when it returns. -/
theorem stats_bounds (h₀ : (handoff conf).Reachable s₀)
    (h : (statsCall conf s₀).Reachable (s, call)) (hreturned : call.returned) (c : Counter) :
    s₀.total conf c ≤ call.result.get c ∧ call.result.get c ≤ s.total conf c := by
  obtain ⟨hreach, seen, hseen⟩ := sighted_of_reachable h₀ h c
  refine ⟨?_, ?_⟩
  · refine (Finset.sum_le_sum_of_subset fun p hp => ?_).trans hseen.low
    rcases hseen.covers p (mem_made.mp hp) with hin | hahead | hunread
    · exact hin
    · rw [hreturned] at hahead
      exact absurd hahead (not_ahead_done p)
    · rw [hreturned] at hunread
      contradiction
  · exact hseen.high.trans (Finset.sum_le_sum_of_subset fun p hp => mem_made.mpr (hseen.made p hp))

end Unlog.Handoff
