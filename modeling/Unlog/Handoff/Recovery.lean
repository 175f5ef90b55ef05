import Unlog.Handoff.Liveness
import Unlog.Handoff.Reclaim

/-! # Retired producers are recovered

While the runtime runs, the consumer never loses sight of a producer whose thread has left, and
pushes it on the free list some day, whether or not anybody calls `flush`. -/

namespace Unlog.Handoff

open Library

variable {conf : Sealed} {s s' : State} {a : Action} {t i : ℕ} {pages : Pages} {p : ProducerId}

/-! ## Nobody forgets it -/

/-- A thread is about to signal for the producer, or the consumer knows of it. -/
def Noticed (s : State) (p : ProducerId) : Prop :=
  (∃ t, (s.pc t).signals? = some p) ∨ Signalled s p ∨ s.consumer.due p = true ∨ Clearing s p

/-- Whoever retires a producer signals for it next. -/
theorem ThreadStep.signals_of_retire (hstep : ThreadStep conf s t s')
    (hpc : s.pc t = .retire pages i)
    (hactive : (s.producer (.pooled pages i)).lifecycle = .active) :
    (s'.pc t).signals? = some (.pooled pages i) := by
  cases hstep with
  | retire hpc' =>
      obtain ⟨rfl, rfl⟩ := ThreadPc.retire.inj (hpc.symm.trans hpc')
      rw [State.setPc_pc_self]
      rfl
  | retireLost hpc' hnot =>
      obtain ⟨rfl, rfl⟩ := ThreadPc.retire.inj (hpc.symm.trans hpc')
      exact absurd hactive hnot
  | move hmove =>
      rw [hpc] at hmove
      cases hmove
  | _ => simp_all

theorem Noticed.thread (hs : (handoff conf).Reachable s)
    (h : Pending s (.pooled pages i) → Noticed s (.pooled pages i))
    (hstep : ThreadStep conf s t s') (hpending : Pending s' (.pooled pages i)) :
    Noticed s' (.pooled pages i) := by
  have hown := ownership_of_reachable hs
  have hmakings := makings_of_reachable hs
  rcases hstep.pending_of hown hpending with hold | ⟨pages', index, heq, hpc, hactive⟩
  · rcases h hold with ⟨other, hsignals⟩ | hsignalled | hdue | hclearing
    · by_cases hother : other = t
      · subst hother
        exact .inr (.inl (hstep.announced hown hmakings hsignals))
      · rw [← hstep.pc_of_ne hother] at hsignals
        exact .inl ⟨other, hsignals⟩
    · exact .inr (.inl (hstep.signalled hown hmakings (ticketSound_of_reachable hs) hsignalled))
    · exact .inr (.inr (.inl (hstep.consumer_eq ▸ hdue)))
    · exact .inr (.inr (.inr (hclearing.thread hold hown hmakings hstep)))
  · rw [heq] at hactive ⊢
    exact .inl ⟨t, hstep.signals_of_retire hpc hactive⟩

theorem Noticed.consumer (hs : (handoff conf).Reachable s)
    (h : Pending s (.pooled pages i) → Noticed s (.pooled pages i))
    (hstep : ConsumerStep conf s s') (hpending : Pending s' (.pooled pages i)) :
    Noticed s' (.pooled pages i) := by
  have hown := ownership_of_reachable hs
  have hold := (hstep.pending (.pooled pages i)).1 hpending
  rcases h hold with ⟨other, hsignals⟩ | hsignalled | hdue | ⟨stage, hvisit, hclears⟩
  · rw [← hstep.pc_eq] at hsignals
    exact .inl ⟨other, hsignals⟩
  · rcases hstep.readyBit hown (makings_of_reachable hs) hsignalled with hdue | ⟨hbit, -⟩
    · exact .inr (.inr (.inl hdue))
    · exact .inr (.inl hbit)
  · rcases hstep.due hown hdue with hdue' | hvisit
    · exact .inr (.inr (.inl hdue'))
    · exact .inr (.inr (.inr (clearing_of_visit _ hvisit trivial)))
  · rcases hstep.clears hs hold hvisit hclears with rfl | hclearing
    · exact absurd hpending (hstep.not_pending hown hvisit)
    · exact .inr (.inr (.inr hclearing))

theorem noticed_of_reachable (h : (handoff conf).Reachable s) :
    Pending s (.pooled pages i) → Noticed s (.pooled pages i) := by
  refine h.invariant (I := fun s => Pending s (.pooled pages i) → Noticed s (.pooled pages i))
    ?_ fun s a s' hs hnoticed hstep => ?_
  · rintro _ ⟨level, rfl⟩ (hretired | hpush) <;> contradiction
  · rcases step_cases hstep with ⟨t, hthread⟩ | hcons
    · exact Noticed.thread hs hnoticed hthread
    · exact Noticed.consumer hs hnoticed hcons

/-! ## The push -/

/-- This pass pushes the producer, if it is pending. -/
def Closing (s : State) (p : ProducerId) : Prop := Sought s p ∨ Clearing s p

/-- Pushed on the free list. -/
def Recovered (s : State) (p : ProducerId) : Prop :=
  (s.producer p).lifecycle = .free ∧ s.consumer.visit? ≠ some (p, .pushFree)

theorem Closing.round? (h : Closing s p) :
    ∃ round, s.consumer.round? = some round ∧ s.consumer ≠ .pass round .done := by
  have hwalking : s.consumer.due p = true ∨ s.consumer.visit? ≠ none ∨ s.consumer.Ahead p := by
    rcases h with (hdue | hvisit | ⟨hahead, -⟩) | ⟨stage, hvisit, -⟩
    · exact .inl hdue
    · exact .inr (.inl (hvisit.trans_ne nofun))
    · exact .inr (.inr hahead)
    · exact .inr (.inl (hvisit.trans_ne nofun))
  cases hc : s.consumer with
  | visit round resume q stage => exact ⟨round, rfl, nofun⟩
  | pass round cursor =>
      refine ⟨round, rfl, ?_⟩
      rintro ⟨⟩
      rw [hc] at hwalking
      rcases hwalking with hdue | hvisit | hahead
      · contradiction
      · exact absurd rfl hvisit
      · exact absurd hahead (not_ahead_done p)
  | _ =>
      rw [hc] at hwalking
      rcases hwalking with hdue | hvisit | hahead
      · contradiction
      · exact absurd rfl hvisit
      · exact hahead.elim

theorem Closing.consumer (hs : (handoff conf).Reachable s) (hpending : Pending s p)
    (h : Closing s p) (hstep : ConsumerStep conf s s') :
    s.consumer.visit? = some (p, .pushFree) ∨ Closing s' p := by
  have hown := ownership_of_reachable hs
  have hmakings := makings_of_reachable hs
  have hvisited : ∀ stage : Stage, s.consumer.visit? = some (p, stage) →
      stage.Clears (s.producer p).queue →
        s.consumer.visit? = some (p, .pushFree) ∨ Closing s' p := by
    intro stage hvisit hclears
    rcases hstep.clears hs hpending hvisit hclears with rfl | hclearing
    · exact .inl hvisit
    · exact .inr (.inr hclearing)
  rcases h with hsought | ⟨stage, hvisit, hclears⟩
  · rcases hsought.consumer hown hmakings (passSound_of_reachable hs)
      (made_of_pending hown hmakings hpending) hstep with hsought' | hvisit
    · exact .inr (.inl hsought')
    · exact hvisited .readTail hvisit trivial
  · exact hvisited stage hvisit hclears

/-- The push brings the producer back. -/
theorem ConsumerStep.recovers (hown : Ownership conf s) (hstep : ConsumerStep conf s s')
    (h : s.consumer.visit? = some (p, .pushFree)) : Recovered s' p := by
  refine ⟨?_, fun hpush => hstep.not_pending hown h (.inr hpush)⟩
  rcases hstep.lifecycle p with hsame | ⟨hmark, -⟩
  · exact hsame.trans (free_of_pushing hown h)
  · rw [hmark] at h
    simp at h

/-- A free producer that is not being pushed is on the free list. -/
theorem Recovered.mem_freeList (hown : Ownership conf s) (h : Recovered s (.pooled pages i)) :
    ∃ list, FreeList conf s pages list ∧ i ∈ list := by
  obtain ⟨list, hlist⟩ := (hown.registry pages).freeing.freeList
  refine ⟨list, hlist, (hlist.complete i h.1).resolve_right fun hpush => h.2 ?_⟩
  exact pushing_iff.mp hpush

variable {σ : ℕ → State}

section Behaviour

variable (h : (handoff conf).Behaviour (·.Stays conf) σ) (hI : ∀ k, Steady conf (σ k))
  (hconsumer : (handoff conf).WeaklyFair σ (· = .consumer))
include h hI hconsumer

theorem leadsTo_pushed :
    LeadsTo σ (fun s => Pending s p ∧ Closing s p) fun s => Recovered s p := by
  refine leadsTo_of_awake (State.walkLeft conf) h hI (fun _ hs => hs.reachable.reachable)
    hconsumer ?_ ?_ ?_
  · intro s hs ⟨_, hclosing⟩
    obtain ⟨round, hround, -⟩ := hclosing.round?
    exact ⟨hs.not_ended, not_asleep_of_round hround⟩
  · intro s t s' hs ⟨hpending, hclosing⟩ hthread
    have hown := ownership_of_reachable hs.reachable.reachable
    have hmakings := makings_of_reachable hs.reachable.reachable
    refine .inr ⟨⟨hpending.thread hown hmakings hthread, ?_⟩, hthread.walkLeft_eq.le⟩
    exact hclosing.imp (fun hsought => hsought.thread hown hmakings hthread) fun hclearing =>
      hclearing.thread hpending hown hmakings hthread
  · intro s s' hs ⟨hpending, hclosing⟩ hcons
    have hreach := hs.reachable.reachable
    have hown := ownership_of_reachable hreach
    rcases hclosing.consumer hreach hpending hcons with hpush | hclosing'
    · exact .inl (hcons.recovers hown hpush)
    · rcases (hcons.pending p).2 hpending with hpending' | hpush
      · refine .inr ⟨⟨hpending', hclosing'⟩, ?_⟩
        obtain ⟨round, hround, hnot⟩ := hclosing.round?
        rcases hcons.walk hown (passSound_of_reachable hreach) (fits_of_reachable hreach) hround
          with ⟨hlt, -⟩ | ⟨hc, -⟩
        · exact hlt
        · exact absurd hc hnot
      · exact .inl (hcons.recovers hown hpush)

omit hconsumer in
/-- Until it is recovered it is pending. -/
theorem pending_until {k j : ℕ} (hkj : k ≤ j) (hk : Pending (σ k) p) :
    Pending (σ j) p ∨ ∃ l, k ≤ l ∧ Recovered (σ l) p := by
  refine LeadsTo.keeps_unless (P := fun s => Pending s p) (Q := fun s => Recovered s p)
    (fun k hpending => ?_) hkj hk
  have hreach := (hI k).reachable.reachable
  have hown := ownership_of_reachable hreach
  rcases h k with heq | ⟨a, -, hnext⟩
  · exact .inr (heq ▸ hpending)
  · rcases step_cases hnext with ⟨t, hthread⟩ | hcons
    · exact .inr (hpending.thread hown (makings_of_reachable hreach) hthread)
    · rcases (hcons.pending p).2 hpending with hpending' | hpush
      · exact .inr hpending'
      · exact .inl (hcons.recovers hown hpush)

theorem leadsTo_recovered (hfair : ∀ t, FairTo conf σ t) :
    LeadsTo σ (fun s => Pending s (.pooled pages i)) fun s => Recovered s (.pooled pages i) := by
  have hpushed := leadsTo_pushed h hI hconsumer (p := .pooled pages i)
  -- wherever the producer is when the next stage is reached, it is pending or recovered
  have hsignal : LeadsTo σ
      (fun s => Pending s (.pooled pages i) ∧ Signalled s (.pooled pages i))
      fun s => Recovered s (.pooled pages i) := by
    intro k ⟨hpending, hsignalled⟩
    have hreach := (hI k).reachable.reachable
    have hmade := made_of_pending (ownership_of_reachable hreach) (makings_of_reachable hreach)
      hpending
    obtain ⟨j, hkj, hsought⟩ := leadsTo_sought h hI hconsumer hfair k ⟨hmade, hsignalled⟩
    rcases pending_until h hI hkj hpending with hpending' | hdone
    · obtain ⟨l, hjl, hl⟩ := hpushed j ⟨hpending', .inl hsought⟩
      exact ⟨l, hkj.trans hjl, hl⟩
    · exact hdone
  intro k hpending
  rcases noticed_of_reachable (hI k).reachable.reachable hpending with
    ⟨t, hsignals⟩ | hsignalled | hdue | hclearing
  · obtain ⟨j, hkj, hsignalled⟩ := leadsTo_signalled h hI (hfair t) k hsignals
    rcases pending_until h hI hkj hpending with hpending' | hdone
    · obtain ⟨l, hjl, hl⟩ := hsignal j ⟨hpending', hsignalled⟩
      exact ⟨l, hkj.trans hjl, hl⟩
    · exact hdone
  · exact hsignal k ⟨hpending, hsignalled⟩
  · exact hpushed k ⟨hpending, .inl (.inl hdue)⟩
  · exact hpushed k ⟨hpending, .inr hclearing⟩

end Behaviour

/-- While nobody shuts the runtime down, a producer whose thread has left is on the free list some
day, for the next thread that logs, whether or not anybody calls `flush`. A critical section is one
access, as under a fair mutex, and a write to a sink returns. -/
theorem eventually_recovered {σ : ℕ → Waits.Sleepy State (Option ℕ) Word}
    (hstart : (sleeping conf).Initial (σ 0))
    (h : (sleeping conf).Behaviour (·.Acts (·.Stays conf)) σ)
    (hfair : ∀ t, Scheduled conf σ t) (hprompt : Prompt conf σ) :
    LeadsTo (fun k => (σ k).state)
      (fun s => (s.producer (.pooled pages i)).lifecycle = .retired)
      fun s => ∃ list, FreeList conf s pages list ∧ i ∈ list := by
  have hI := steady_of_behaviour (started_state hstart) (Waits.behaviour_state h)
  have hrecovered : LeadsTo (fun k => (σ k).state) (fun s => Pending s (.pooled pages i))
      fun s => Recovered s (.pooled pages i) :=
    leadsTo_recovered (Waits.behaviour_state h) hI (hprompt.consumer_fair hstart h)
      fun t => (hfair t).fairTo hstart h hprompt
  intro k hretired
  obtain ⟨j, hkj, hj⟩ := hrecovered k (.inl hretired)
  exact ⟨j, hkj, hj.mem_freeList (ownership_of_reachable (hI j).reachable.reachable)⟩

/-- One thread logs and leaves. -/
def demoLeft : List (Waits.SleepyAction Action (Option ℕ)) :=
  List.flatten
    [demoPublished.map .act, List.replicate 4 (.act (.thread 0)),
      [.notify (some 0) 0, .act (.call 0 (.release .normal)), .act (.thread 0)]]

/-- Its producer comes back. -/
theorem eventually_recovered_left : ∃ j list,
    FreeList demo (demoRun demoLeft j).state .normal list ∧ 0 ∈ list := by
  have hfirst : ∀ b ∈ demoLeft, b.Acts (Action.Stays demo) := by
    rintro b hb a rfl
    simp only [demoLeft, demoPublished, List.map_cons, List.map_nil, List.replicate,
      List.flatten_cons, List.flatten_nil, List.append_nil, List.cons_append, List.nil_append,
      List.mem_cons, Waits.SleepyAction.act.injEq, reduceCtorEq, List.not_mem_nil, or_false,
      false_or, or_self_left] at hb
    rcases hb with rfl | rfl | rfl | rfl | rfl | rfl <;>
      simp [Action.Stays, Action.Known, demo]
  have hretired : ((demoRun demoLeft demoLeft.length).state.producer
      (.pooled .normal 0)).lifecycle = .retired := by
    decide +kernel
  obtain ⟨j, -, list, hlist, hmem⟩ := eventually_recovered demoRun_initial
    (demoRun_behaviour hfirst trivial (fun _ => trivial) fun _ => trivial)
    (demoTurns_scheduled _) (demoTurns_prompt _) _ hretired
  exact ⟨j, list, hlist, hmem⟩

end Unlog.Handoff
