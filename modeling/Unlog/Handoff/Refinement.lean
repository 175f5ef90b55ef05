import Unlog.Handoff.Idle
import Unlog.Handoff.Wait
import Unlog.Library.Fanout
import Unlog.Library.Simulation

/-! # What the hand-off is for

The hand-off implements a fan-out service: its lanes are the queues of the producers, its sinks
those of the runtime, its clients the threads that flush. -/

namespace Unlog.Handoff

open Library

variable {conf : Sealed} {s s' s₀ : State} {t : ℕ} {p : ProducerId}

/-- The service: a record goes to the sinks of its route, and a flush reaches all sinks. -/
def logService (conf : Sealed) : Fanout ProducerId Record SinkRef where
  capacity p := conf.capacity p.pages
  targets record := conf.targets record.route
  sinks := conf.sinks

/-- What a sink gets with an event. -/
def Event.shown? (sink : SinkRef) : Event → Option (Fanout.Entry ProducerId)
  | .write other r _ => if other = sink then some (.item r.producer r.number) else none
  | .flush other => if other = sink then some .flushed else none

def RecordId.item (r : RecordId) : ProducerId × ℕ := (r.producer, r.number)

/-- The state of the service. -/
def State.served (s : State) : Fanout.State ProducerId Record SinkRef ℕ where
  accepted p := (s.producer p).queue.published
  taken p := (s.producer p).queue.head
  seen sink := s.out.filterMap (Event.shown? sink)
  returned := s.returned.map RecordId.item
  asked t := (s.pc t).before?.map (List.map RecordId.item)
  running := decide (s.lifecycle = .running)

/-- What the next access of a thread means to the service. -/
def State.tells (s : State) (t : ℕ) : ThreadPc → Option (Fanout.Action ProducerId Record ℕ)
  | .markEnqueued r =>
    if (s.producer r.producer).enqueued then some (.returned r.producer r.number) else none
  | .wake (.note r) => some (.returned r.producer r.number)
  | .flushState _ => if s.present then none else some (.refuse t)
  | .flushLifecycle _ => if s.lifecycle = .running then none else some (.refuse t)
  | .flushLeave _ _ => some (.answer t)
  | .destroy _ => if s.lifecycle = .running then some .stop else none
  | _ => none

/-- What an action means to the service. -/
def tells (conf : Sealed) (s : State) : Action → Option (Fanout.Action ProducerId Record ℕ)
  | .call t .flush => some (.ask t)
  | .call _ _ => none
  | .produce t outcome =>
    match s.pc t with
    | .produce channel p =>
      if (publishes conf s (.produce t outcome)).isSome then
        some (.accept p { route := channel, truncated := outcome == .truncated })
      else none
    | _ => none
  | .thread t => s.tells t (s.pc t)
  | .consumer =>
    match s.consumer with
    | .visit _ _ p (.consume tail) =>
      if (s.producer p).queue.head < tail then some (.deliver p) else none
    | .flushSinks _ | .finalFlush => some .flush
    | _ => none

/-- The service goes along with the step, or does not see it. -/
def Follows (conf : Sealed) (s s' : State)
    (told : Option (Fanout.Action ProducerId Record ℕ)) : Prop :=
  told.elim (s'.served = s.served) fun b =>
    Fanout.step (logService conf) s.served b = some s'.served

/-! ## Threads -/

theorem served_congr (hqueue : ∀ p, (s'.producer p).queue = (s.producer p).queue)
    (hout : s'.out = s.out) (hreturned : s'.returned = s.returned)
    (hbefore : ∀ t, (s'.pc t).before? = (s.pc t).before?)
    (hrunning : s'.lifecycle = .running ↔ s.lifecycle = .running) : s'.served = s.served := by
  simp only [State.served, hqueue, hout, hreturned, hbefore, hrunning]

/-- A thread goes on, with other records to wait for in a flush. -/
theorem served_setPc {next : ThreadPc} :
    (s.setPc t next).served = { s.served with
      asked := Function.update s.served.asked t (next.before?.map (List.map RecordId.item)) } := by
  have hasked : (s.setPc t next).served.asked =
      Function.update s.served.asked t (next.before?.map (List.map RecordId.item)) := by
    funext u
    by_cases hu : u = t
    · subst hu
      simp [State.served]
    · simp [State.served, State.setPc_pc_of_ne _ hu, Function.update_of_ne hu]
  rw [← hasked]
  rfl

theorem served_setPc_same {next : ThreadPc} (h : next.before? = (s.pc t).before?) :
    (s.setPc t next).served = s.served := by
  rw [served_setPc, h]
  exact congrArg (fun asked => { s.served with asked := asked }) (Function.update_eq_self t s.served.asked)

theorem served_setProducer {value : Producer} (h : value.queue = (s.producer p).queue) :
    (s.setProducer p value).served = s.served := by
  refine served_congr (fun q => queue_setProducer ?_) rfl rfl (fun _ => rfl) Iff.rfl
  rintro rfl
  exact h

theorem served_setQueue (queue : Queue) :
    (s.setProducer p { s.producer p with queue := queue }).served = { s.served with
      accepted := Function.update s.served.accepted p queue.published
      taken := Function.update s.served.taken p queue.head } := by
  have hproducer : ∀ q, ((s.setProducer p { s.producer p with queue := queue }).producer q).queue =
      Function.update (fun q => (s.producer q).queue) p queue q := by
    intro q
    by_cases hq : q = p
    · subst hq
      simp
    · rw [State.setProducer_producer_of_ne _ hq, Function.update_of_ne hq]
  have haccepted : (s.setProducer p { s.producer p with queue := queue }).served.accepted =
      Function.update s.served.accepted p queue.published := by
    funext q
    simp only [State.served, hproducer]
    exact Function.apply_update (fun _ => Queue.published) (fun q => (s.producer q).queue) p queue q
  have htaken : (s.setProducer p { s.producer p with queue := queue }).served.taken =
      Function.update s.served.taken p queue.head := by
    funext q
    simp only [State.served, hproducer]
    exact Function.apply_update (fun _ => Queue.head) (fun q => (s.producer q).queue) p queue q
  rw [← haccepted, ← htaken]
  rfl

theorem served_publish (record : Record) :
    (s.setProducer p { s.producer p with
      queue := { (s.producer p).queue with
        published := (s.producer p).queue.published ++ [record] } }).served =
      { s.served with
        accepted := Function.update s.served.accepted p (s.served.accepted p ++ [record]) } := by
  refine (served_setQueue _).trans (congrArg (fun taken : ProducerId → ℕ => { s.served with
    accepted := Function.update s.served.accepted p (s.served.accepted p ++ [record])
    taken := taken }) ?_)
  exact Function.update_eq_self p s.served.taken

theorem served_takeOff : (s.setProducer p { s.producer p with
    queue := { (s.producer p).queue with head := (s.producer p).queue.head + 1 } }).served =
      { s.served with taken := Function.update s.served.taken p (s.served.taken p + 1) } := by
  refine (served_setQueue _).trans (congrArg (fun accepted : ProducerId → List Record => { s.served with
    accepted := accepted
    taken := Function.update s.served.taken p (s.served.taken p + 1) }) ?_)
  exact Function.update_eq_self p s.served.accepted

theorem served_publishReadyBit : (s.publishReadyBit p).served = s.served := by
  obtain ⟨registry, hr⟩ := State.publishReadyBit_eq s p
  rw [hr]
  rfl

theorem mem_served_returned : r.item ∈ s.served.returned ↔ r ∈ s.returned := by
  obtain ⟨p, n⟩ := r
  constructor
  · intro h
    obtain ⟨⟨q, m⟩, hmem, heq⟩ := List.mem_map.mp h
    obtain ⟨rfl, rfl⟩ := Prod.mk.inj heq
    exact hmem
  · exact List.mem_map_of_mem

/-- The accesses that may mean something to the service. -/
def ThreadPc.telling : ThreadPc → Bool
  | .markEnqueued _ | .wake (.note _) | .flushState _ | .flushLifecycle _ | .flushLeave _ _
  | .destroy _ => true
  | _ => false

theorem tells_none {pc : ThreadPc} (h : pc.telling = false) : s.tells t pc = none := by
  cases pc with
  | wake waker => cases waker <;> first | rfl | contradiction
  | _ => first | rfl | contradiction

theorem Next.before_eq {pc next : ThreadPc} (hnext : Next conf s t pc next) (hidle : pc ≠ .idle)
    (h : pc.telling = false) : next.before? = pc.before? := by
  cases hnext with
  | move hmove => cases hmove <;> first | rfl | contradiction
  | _ => first | rfl | contradiction

theorem ThreadStep.returned_eq (hstep : ThreadStep conf s t s') (h : (s.pc t).telling = false) :
    s'.returned = s.returned := by
  cases hstep with
  | markLost hpc =>
      rw [hpc] at h
      contradiction
  | publishBit | publishRetired =>
      obtain ⟨registry, hr⟩ := State.publishReadyBit_eq s _
      rw [hr]
      rfl
  | wake hpc =>
      rename_i waker
      rw [hpc] at h
      cases waker with
      | note => contradiction
      | _ => rfl
  | _ => rfl

theorem ThreadStep.running_iff (hdestroy : DestroySound s) (hstep : ThreadStep conf s t s')
    (h : (s.pc t).telling = false) : s'.lifecycle = .running ↔ s.lifecycle = .running := by
  by_cases hfinal : (s.pc t).final? = none
  · rw [hstep.lifecycle_eq hfinal]
  · cases hstep with
    | destroy hpc =>
        rw [hpc] at h
        contradiction
    | finishDestroy _ hpc =>
        have hne := hdestroy.final t _ (by rw [hpc]; rfl)
        have hdown := hdestroy.destroying t (by rw [hpc]; rfl)
        exact ⟨fun h => absurd h hne, fun h => absurd (hdown.symm.trans h) nofun⟩
    | publishBit hpc | publishRetired hpc =>
        rw [hpc] at hfinal
        contradiction
    | wake =>
        rename_i waker _
        cases waker <;> exact Iff.rfl
    | _ => exact Iff.rfl

theorem ThreadStep.silent (hdestroy : DestroySound s) (hstep : ThreadStep conf s t s')
    (hidle : s.pc t ≠ .idle) (hproduce : ∀ channel p, s.pc t ≠ .produce channel p)
    (h : (s.pc t).telling = false) : s'.served = s.served := by
  refine served_congr (fun p => ?_) hstep.served_eq.1 (hstep.returned_eq h) (fun u => ?_)
    (hstep.running_iff hdestroy h)
  · refine (hstep.queue p).resolve_right ?_
    rintro ⟨channel, truncated, hpc, -⟩
    exact hproduce channel p hpc
  · by_cases hu : u = t
    · subst hu
      exact hstep.next.before_eq hidle h
    · rw [hstep.pc_of_ne hu]

/-! ### What the service sees of a thread -/

theorem served_finishLog (h : (s.pc t).before? = none) :
    (s.finishLog t r).served = { s.served with returned := r.item :: s.served.returned } := by
  have hidle : (s.setPc t .idle).served = s.served := served_setPc_same h.symm
  exact congrArg (fun f : Fanout.State ProducerId Record SinkRef ℕ =>
    { f with returned := r.item :: s.served.returned }) hidle

/-- The call returns for a record that it has published and nobody has returned for. -/
theorem follows_finishLog (hs : (handoff conf).Reachable s) (hpending : (s.pc t).pending? = some r)
    (h : (s.pc t).before? = none) (h₀ : s₀.served = (s.finishLog t r).served) :
    Follows conf s s₀ (some (.returned r.producer r.number)) := by
  obtain ⟨hpublished, hnew⟩ := (ledger_of_reachable hs).pending t r hpending
  have hguard : r.number < (s.served.accepted r.producer).length ∧
      (r.producer, r.number) ∉ s.served.returned :=
    ⟨hpublished, fun hmem => hnew (mem_served_returned.mp hmem)⟩
  rw [Follows, Option.elim_some, Fanout.step, if_pos hguard, h₀, served_finishLog h]
  rfl

theorem settled_of_secured (h : Secured conf s r) :
    Fanout.Settled (logService conf) s.served r.item := by
  refine ⟨h.taken, fun sink hsink => ?_⟩
  obtain ⟨before, after, hout, hwrites, hflush⟩ := h.flushed sink hsink
  refine ⟨before.filterMap (Event.shown? sink), after.filterMap (Event.shown? sink), ?_,
    fun hmem => hwrites ?_, ?_⟩
  · exact (congrArg (List.filterMap (Event.shown? sink)) hout).trans List.filterMap_append
  · obtain ⟨event, hevent, hitem⟩ := List.mem_filterMap.mp hmem
    refine List.mem_filterMap.mpr ⟨event, hevent, ?_⟩
    cases event with
    | flush other => simp [Event.shown?] at hitem
    | write other record live =>
        obtain ⟨p, n⟩ := record
        obtain ⟨q, m⟩ := r
        simp only [Event.shown?, RecordId.item, Option.ite_none_right_eq_some,
          Option.some.injEq, Fanout.Entry.item.injEq] at hitem
        obtain ⟨rfl, rfl, rfl⟩ := hitem
        exact if_pos rfl
  · exact List.mem_filterMap.mpr ⟨_, hflush, if_pos rfl⟩

/-- A flush that comes too late goes without an answer. -/
theorem follows_refuse {next : ThreadPc} (h : s.lifecycle ≠ .running) (hnext : next.before? = none) :
    Follows conf s (s.setPc t next) (some (.refuse t)) := by
  have hguard : ¬ s.served.running = true := by simpa [State.served] using h
  rw [Follows, Option.elim_some, Fanout.step, if_neg hguard, served_setPc, hnext]
  rfl

theorem follows_answer (hs : (handoff conf).Reachable s) {target : ℕ} {before : List RecordId}
    (hpc : s.pc t = .flushLeave target before) :
    Follows conf s ({ s with activeFlushers := s.activeFlushers - 1 }.setPc t .idle)
      (some (.answer t)) := by
  have hflush := flushSound_of_reachable hs
  have hle := hflush.leaving t target before hpc
  have hserved := (hflush.served t target before (by rw [hpc]; rfl)).2
  have hasked : s.served.asked t = some (before.map RecordId.item) := by
    simp only [State.served, hpc, ThreadPc.before?, Option.map_some]
  have hsettled : ∀ item ∈ before.map RecordId.item,
      Fanout.Settled (logService conf) s.served item := by
    intro item hitem
    obtain ⟨r, hr, rfl⟩ := List.mem_map.mp hitem
    exact settled_of_secured ((hserved r hr).done hle)
  rw [Follows, Option.elim_some, served_setPc]
  simp only [Fanout.step, hasked]
  rw [if_pos hsettled]
  rfl

theorem follows_destroy {final : RuntimeLifecycle} (hpc : s.pc t = .destroy final) :
    Follows conf s ({ s with
      lifecycle := .shuttingDown
      level := fun _ => .off
      accepted := s.returned }.setPc t (.awaitFlushers final)) (some .stop) := by
  rw [Follows, Option.elim_some, served_setPc_same (by rw [hpc]; rfl)]
  rfl

theorem threadStep_follows (hs : (handoff conf).Reachable s)
    (hstep : threadStep conf s t = some s') : Follows conf s s' (s.tells t (s.pc t)) := by
  have hdestroy := destroySound_of_reachable hs
  have hthread := threadStep_cases hstep
  cases hpc : s.pc t with
  | idle => simp [threadStep, hpc] at hstep
  | produce channel p => simp [threadStep, hpc] at hstep
  | markEnqueued r =>
      simp only [threadStep, hpc] at hstep
      split at hstep
      case isTrue hflag =>
        obtain rfl := Option.some.inj hstep
        rw [State.tells, if_pos hflag]
        exact follows_finishLog hs (by rw [hpc]; rfl) (by rw [hpc]; rfl) rfl
      case isFalse hflag =>
        obtain rfl := Option.some.inj hstep
        rw [State.tells, if_neg hflag]
        refine (served_setPc_same ?_).trans (served_setProducer rfl)
        obtain ⟨p, n⟩ := r
        rw [State.setProducer_pc, hpc]
        cases p <;> rfl
  | wake waker =>
      cases waker with
      | note r =>
          simp only [threadStep, hpc, Option.some.injEq] at hstep
          subst hstep
          exact follows_finishLog hs (by rw [hpc]; rfl) (by rw [hpc]; rfl) rfl
      | _ => exact hthread.silent hdestroy (by simp [hpc]) (by simp [hpc]) (by rw [hpc]; rfl)
  | flushState before =>
      simp only [threadStep, hpc, Option.some.injEq] at hstep
      subst hstep
      by_cases hpresent : s.present = true
      · rw [State.tells, if_pos hpresent, if_pos hpresent]
        exact served_setPc_same (by rw [hpc]; rfl)
      · rw [State.tells, if_neg hpresent, if_neg hpresent]
        exact follows_refuse (fun h => hpresent (present_of_running hs h)) rfl
  | flushLifecycle before =>
      simp only [threadStep, hpc, Option.some.injEq] at hstep
      subst hstep
      by_cases hrunning : s.lifecycle = .running
      · rw [State.tells, if_pos hrunning, if_pos hrunning]
        exact served_setPc_same (by rw [hpc]; rfl)
      · rw [State.tells, if_neg hrunning, if_neg hrunning]
        exact follows_refuse hrunning rfl
  | flushLeave target before =>
      simp only [threadStep, hpc, Option.some.injEq] at hstep
      subst hstep
      exact follows_answer hs hpc
  | destroy final =>
      simp only [threadStep, hpc] at hstep
      split at hstep
      case isTrue hdown =>
        obtain rfl := Option.some.inj hstep
        have hrunning : s.lifecycle ≠ .running := by simp [hdown]
        rw [State.tells, if_neg hrunning]
        exact served_setPc_same (by rw [hpc]; rfl)
      case isFalse =>
        split at hstep
        case isTrue => contradiction
        case isFalse hrunning =>
          obtain rfl := Option.some.inj hstep
          rw [State.tells, if_pos (not_not.mp hrunning)]
          exact follows_destroy hpc
  | _ =>
      rw [tells_none rfl]
      exact hthread.silent hdestroy (by simp [hpc]) (by simp [hpc]) (by rw [hpc]; rfl)

/-! ## Calls and callbacks -/

theorem call_follows (call : Call) (hidle : s.pc t = .idle) :
    Follows conf s (s.setPc t (call.entry s t)) (tells conf s (.call t call)) := by
  cases call with
  | flush =>
      have hasked : (s.served.asked t).isNone = true := by
        simp [State.served, hidle, ThreadPc.before?]
      simp only [tells, Follows, Option.elim_some, Fanout.step, hasked, if_true, served_setPc]
      rfl
  | release pages =>
      refine served_setPc_same ?_
      rw [hidle, Call.entry]
      split <;> rfl
  | _ =>
      refine served_setPc_same ?_
      rw [hidle]
      rfl

/-- A record is accepted at the end of its queue. -/
theorem follows_publish {channel : ℕ} {p : ProducerId} (hpc : s.pc t = .produce channel p)
    (truncated : Bool)
    (hroom : ¬ conf.capacity p.pages ≤ (s.producer p).queue.tail - (s.producer p).queue.head) :
    Follows conf s ((s.setProducer p { s.producer p with
      queue := { (s.producer p).queue with
        published := (s.producer p).queue.published ++ [⟨channel, truncated⟩] } }).setPc t
          (afterPublish conf ⟨p, (s.producer p).queue.tail⟩ truncated))
      (some (.accept p ⟨channel, truncated⟩)) := by
  have hguard : (s.served.accepted p).length - s.served.taken p < (logService conf).capacity p :=
    Nat.lt_of_not_le hroom
  have hbefore : (afterPublish conf ⟨p, (s.producer p).queue.tail⟩ truncated).before? =
      (s.pc t).before? := by
    rw [hpc, afterPublish]
    split <;> rfl
  rw [Follows, Option.elim_some, Fanout.step, if_pos hguard]
  refine congrArg some (Eq.symm (Eq.trans (served_setPc_same ?_) (served_publish _)))
  exact hbefore

theorem produce_follows {channel : ℕ} {p : ProducerId} (hpc : s.pc t = .produce channel p)
    (outcome : Outcome) : Follows conf s (produceStep conf s t channel p outcome)
      (tells conf s (.produce t outcome)) := by
  have hdrop : (s.setPc t (afterDrop conf p)).served = s.served := by
    refine served_setPc_same ?_
    rw [hpc, afterDrop]
    split <;> rfl
  simp only [tells, publishes, hpc, produceStep]
  by_cases hfull : conf.capacity p.pages ≤ (s.producer p).queue.tail - (s.producer p).queue.head
  · rw [if_pos hfull, if_pos hfull]
    exact hdrop
  · rw [if_neg hfull, if_neg hfull]
    cases outcome with
    | written => exact follows_publish hpc false hfull
    | truncated => exact follows_publish hpc true hfull
    | dropped => exact hdrop
    | error => exact served_setPc_same (by rw [hpc]; rfl)

/-! ## The consumer -/

/-- What a sink gets when each of some sinks gets one event. -/
theorem filterMap_shown? {sink : SinkRef} {event : SinkRef → Event}
    {entry : Fanout.Entry ProducerId}
    (h : ∀ other, (event other).shown? sink = if other = sink then some entry else none)
    (sinks : List SinkRef) : (sinks.map event).filterMap (Event.shown? sink) =
      List.replicate (sinks.count sink) entry := by
  induction sinks with
  | nil => rfl
  | cons other sinks ih =>
      rw [List.map_cons, List.filterMap_cons, h]
      by_cases heq : other = sink
      · subst heq
        simp [ih, List.replicate_succ]
      · simp [heq, ih]

theorem follows_consume {p : ProducerId} {record : Record}
    (hrecord : (s.producer p).queue.published[(s.producer p).queue.head]? = some record) :
    Follows conf s { s.setProducer p { s.producer p with
        queue := { (s.producer p).queue with head := (s.producer p).queue.head + 1 } } with
      out := s.out ++ emission conf s ⟨p, (s.producer p).queue.head⟩ record.route }
      (some (.deliver p)) := by
  have hguard : (s.served.accepted p)[s.served.taken p]? = some record := hrecord
  have hseen : (fun sink => s.served.seen sink ++ List.replicate
      (((logService conf).targets record).count sink) (.item p (s.served.taken p))) =
      fun sink => (s.out ++ emission conf s ⟨p, (s.producer p).queue.head⟩ record.route).filterMap
        (Event.shown? sink) := by
    funext sink
    rw [List.filterMap_append, emission, filterMap_shown? fun other => rfl]
    rfl
  simp only [Follows, Option.elim_some, Fanout.step, hguard, hseen]
  exact congrArg (fun f : Fanout.State ProducerId Record SinkRef ℕ => some { f with
    seen := fun sink => (s.out ++ emission conf s ⟨p, (s.producer p).queue.head⟩
      record.route).filterMap (Event.shown? sink) }) (served_takeOff (s := s) (p := p)).symm

theorem follows_flushEvents :
    Follows conf s { s with out := s.out ++ flushEvents conf } (some .flush) := by
  have hseen : (fun sink => (s.out ++ flushEvents conf).filterMap (Event.shown? sink)) =
      fun sink => s.served.seen sink ++ List.replicate (conf.sinks.count sink) .flushed := by
    funext sink
    rw [List.filterMap_append, flushEvents, filterMap_shown? fun other => rfl]
    rfl
  exact congrArg (fun seen => some { s.served with seen := seen }) hseen.symm

theorem consumer_follows (hstep : ConsumerStep conf s s') :
    Follows conf s s' (tells conf s .consumer) := by
  cases hstep with
  | consume hc hlt hrecord =>
      simp only [tells, hc, if_pos hlt]
      exact follows_consume hrecord
  | flushSinks hc | finalFlush hc =>
      simp only [tells, hc]
      exact follows_flushEvents
  | consumed hc hle =>
      simp only [tells, hc, if_neg (Nat.not_lt_of_le hle)]
      rfl
  | clearEnqueued hc | remarkWon hc | markFree hc | pushFree hc =>
      simp only [tells, hc]
      exact served_setProducer rfl
  | repost hc hstage =>
      have hsilent : tells conf s .consumer = none := by
        rcases hstage with rfl | rfl <;> simp only [tells, hc]
      rw [hsilent]
      exact served_publishReadyBit
  | notRetired hc hstage =>
      have hsilent : tells conf s .consumer = none := by
        rcases hstage with rfl | rfl <;> simp only [tells, hc]
      rw [hsilent]
      rfl
  | sampleTicket hc | startFlush hc | noFlush hc | completeFlush hc | stop hc
  | sleep hc | again hc | awake hc | singleVisit hc | singleSkip hc | countFlush hc
  | countWords hc | takeWord hc | wordsDone hc | bitsDone hc | bitVisit hc | slotVisit hc
  | slotsDone hc | passDone hc | readTail hc | firstEmpty hc | firstFilled hc | secondEmpty hc
  | secondFilled hc | remarkLost hc | isRetired hc =>
      simp only [tells, hc]
      rfl

/-! ## The program implements the service -/

theorem step_follows (hs : (handoff conf).Reachable s) {a : Action}
    (hstep : step conf s a = some s') : Follows conf s s' (tells conf s a) := by
  cases a with
  | call t call =>
      simp only [step] at hstep
      split at hstep
      case isTrue hidle =>
        obtain rfl := Option.some.inj hstep
        exact call_follows call hidle
      case isFalse => contradiction
  | produce t outcome =>
      simp only [step] at hstep
      split at hstep
      case h_1 channel p hpc =>
        obtain rfl := Option.some.inj hstep
        exact produce_follows hpc outcome
      case h_2 => contradiction
  | thread t => exact threadStep_follows hs hstep
  | consumer => exact consumer_follows (consumerStep_cases hstep)

/-- Each access of the guarded program is a step of the service or nothing. -/
noncomputable def serving (conf : Sealed) :
    System.Simulation (handoff conf) ((logService conf).service ℕ) where
  view := State.served
  label := tells conf
  initial := by
    rintro s ⟨level, rfl⟩
    rfl
  shown s a s' b hs hstep hlabel := by
    have hfollows := step_follows hs hstep
    rwa [hlabel] at hfollows
  silent s a s' hs hstep hlabel := by
    have hfollows := step_follows hs hstep
    rwa [hlabel] at hfollows

/-- So is each step of the program with its waits and notifications. -/
noncomputable def implements (conf : Sealed) :
    System.Simulation (sleeping conf) ((logService conf).service ℕ) :=
  (waiting conf).simulation.comp (serving conf)

/-- A run of the program from its start, told in the words of the service, is a run of the
service. -/
theorem service_of_run {level : ℕ → LogLevel}
    {actions : List (Waits.SleepyAction Action (Option ℕ))}
    {f : Waits.Sleepy State (Option ℕ) Word}
    (hrun : (sleeping conf).run { state := .started conf level } actions = some f) :
    ((logService conf).service ℕ).run {}
      ((implements conf).labels { state := .started conf level } actions) = some f.state.served :=
  (implements conf).run (.initial ⟨_, ⟨level, rfl⟩, rfl⟩) hrun

/-- Thread 0 logs, and then a flush of thread 1 returns. -/
def demoServed : List (Waits.SleepyAction Action (Option ℕ)) :=
  List.flatten
    [[.act (.call 0 (.logUnchecked 0)), .act (.thread 0), .act (.thread 0),
        .act (.produce 0 .written)],
      List.replicate 4 (.act (.thread 0)), [.notify (some 0) 0, .act (.call 1 .flush)],
      List.replicate 5 (.act (.thread 1)), [.notify (some 1) 0], List.replicate 35 (.act .consumer),
      [.notify none 0], List.replicate 2 (.act (.thread 1))]

/-- To the service that is one record and one question that is answered. -/
theorem service_of_run_answered :
    ∃ f, (sleeping demo).run { state := .started demo fun _ => .info } demoServed = some f ∧
      ((logService demo).service ℕ).run {}
        [.accept (.pooled .normal 0) ⟨0, false⟩, .returned (.pooled .normal 0) 0, .ask 1,
          .deliver (.pooled .normal 0), .flush, .answer 1] = some f.state.served := by
  have hsome : ((sleeping demo).run { state := .started demo fun _ => .info } demoServed).isSome =
      true := by
    decide +kernel
  have hlabels : (implements demo).labels { state := .started demo fun _ => .info } demoServed =
      [.accept (.pooled .normal 0) ⟨0, false⟩, .returned (.pooled .normal 0) 0, .ask 1,
        .deliver (.pooled .normal 0), .flush, .answer 1] := by
    decide +kernel
  obtain ⟨f, hf⟩ := Option.isSome_iff_exists.mp hsome
  exact ⟨f, hf, hlabels ▸ service_of_run hf⟩

/-! ## The order at a sink -/

/-- The number of the record that a sink gets from a producer. -/
def Event.numberAt? (sink : SinkRef) (p : ProducerId) : Event → Option ℕ
  | .write other r _ => if other = sink ∧ r.producer = p then some r.number else none
  | .flush _ => none

/-- Each sink has seen those records of a producer that were taken and go to it, in the order in
which they were published and each once. -/
def SinkOrder (conf : Sealed) (s : State) : Prop :=
  ∀ sink p, s.out.filterMap (Event.numberAt? sink p) =
    (List.range (s.producer p).queue.head).filter fun n => sink ∈ targetsOf conf s ⟨p, n⟩

theorem shown?_number? (sink : SinkRef) (p : ProducerId) (event : Event) :
    (event.shown? sink).bind (Fanout.Entry.number? p) = event.numberAt? sink p := by
  cases event with
  | flush other =>
      simp only [Event.shown?, Event.numberAt?]
      split <;> rfl
  | write other r live =>
      simp only [Event.shown?, Event.numberAt?]
      by_cases hsink : other = sink
      · simp [hsink, Fanout.Entry.number?]
      · simp [hsink]

theorem targets_nodup (route : ℕ) : (conf.targets route).Nodup := by
  unfold Sealed.targets
  split
  · exact List.nodup_nil
  · refine List.nodup_cons.mpr ⟨by simp, ?_⟩
    exact List.nodup_range.map fun a b h => SinkRef.custom.inj h

/-- A record goes to a sink once or not at all. -/
theorem share_served (sink : SinkRef) (p : ProducerId) (n : ℕ) :
    Fanout.share (logService conf) s.served sink p n =
      if sink ∈ targetsOf conf s ⟨p, n⟩ then 1 else 0 := by
  simp only [Fanout.share, State.served, targetsOf]
  split
  case h_1 hnone => simp [hnone]
  case h_2 record hrecord =>
    simp only [hrecord]
    exact (targets_nodup record.route).count

theorem flatMap_replicate_one (keep : ℕ → Prop) [DecidablePred keep] (numbers : List ℕ) :
    (numbers.flatMap fun n => List.replicate (if keep n then 1 else 0) n) =
      numbers.filter fun n => keep n := by
  induction numbers with
  | nil => rfl
  | cons n numbers ih =>
      by_cases hn : keep n
      · simp [hn, ih]
      · simp [hn, ih]

theorem sinkOrder_of_reachable {f : Waits.Sleepy State (Option ℕ) Word}
    (h : (sleeping conf).Reachable f) : SinkOrder conf f.state := by
  intro sink p
  have hordered : Fanout.Ordered (logService conf) f.state.served :=
    Fanout.ordered_of_reachable ((implements conf).reachable h)
  have hseen : f.state.out.filterMap (Event.numberAt? sink p) =
      Fanout.numbersAt f.state.served sink p := by
    simp only [Fanout.numbersAt, State.served, List.filterMap_filterMap, shown?_number?]
  rw [hseen, hordered.numbers sink p]
  simp only [share_served]
  exact flatMap_replicate_one _ _

/-- The custom sink has its one record. -/
theorem sinkOrder_answered :
    ∃ f, (sleeping demo).run { state := .started demo fun _ => .info } demoServed = some f ∧
      SinkOrder demo f.state ∧
      f.state.out.filterMap (Event.numberAt? (.custom 0) (.pooled .normal 0)) = [0] := by
  have hout : ((sleeping demo).run { state := .started demo fun _ => .info } demoServed).map
      (fun f => f.state.out.filterMap (Event.numberAt? (.custom 0) (.pooled .normal 0))) =
        some [0] := by
    decide +kernel
  obtain ⟨f, hf, hseen⟩ := Option.map_eq_some_iff.mp hout
  exact ⟨f, hf, sinkOrder_of_reachable (.run (.initial ⟨_, ⟨fun _ => .info, rfl⟩, rfl⟩) hf), hseen⟩

end Unlog.Handoff
