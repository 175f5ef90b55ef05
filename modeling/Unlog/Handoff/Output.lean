import Unlog.Handoff.Cells

/-! # What the sinks have seen

Records are written in the order of their queue, each once to every sink of its route. -/

namespace Unlog.Handoff

variable {conf : Sealed} {s s' : State} {t : ℕ} {p : ProducerId} {r : RecordId}

/-! ## The queues -/

theorem queue_setProducer {q : ProducerId} {value : Producer}
    (h : q = p → value.queue = (s.producer p).queue) :
    ((s.setProducer q value).producer p).queue = (s.producer p).queue :=
  State.setProducer_part Producer.queue h

/-- A thread appends to the queue it produces into, and leaves the others alone. -/
theorem ThreadStep.queue (hstep : ThreadStep conf s t s') (p : ProducerId) :
    (s'.producer p).queue = (s.producer p).queue ∨
      ∃ channel truncated, s.pc t = .produce channel p ∧
        s'.pc t = afterPublish conf ⟨p, (s.producer p).queue.tail⟩ truncated ∧
        (s'.producer p).queue = { (s.producer p).queue with
          published := (s.producer p).queue.published ++ [⟨channel, truncated⟩] } := by
  cases hstep with
  | publish truncated hpc =>
      rename_i channel q
      by_cases hp : q = p
      · subst hp
        refine .inr ⟨channel, truncated, hpc, State.setPc_pc_self _, ?_⟩
        exact congrArg Producer.queue (State.setProducer_producer_self _)
      · exact .inl (queue_setProducer fun h => absurd h hp)
  | claimOwner | countDropped | countEmitted | countTruncated | markWon | retire =>
      refine .inl (queue_setProducer ?_)
      rintro rfl
      rfl
  | recycle | create =>
      refine .inl (queue_setProducer (s := s.setRegistry _ _) ?_)
      rintro rfl
      rfl
  | publishBit | publishRetired =>
      exact .inl (congrArg (fun f => (f p).queue) State.publishReadyBit_producer)
  | wake => rename_i waker _; cases waker <;> exact .inl rfl
  | _ => exact .inl rfl

/-- The consumer takes and writes one record, flushes the sinks, or leaves both alone. -/
inductive ConsumerStep.Output (conf : Sealed) (s s' : State) : Prop
  | write {round : Round} {resume : Cursor} {tail : ℕ} (p : ProducerId) (record : Record)
      (hc : s.consumer = .visit round resume p (.consume tail)) (hc' : s'.consumer = s.consumer)
      (hrecord : (s.producer p).queue.published[(s.producer p).queue.head]? = some record)
      (hout : s'.out = s.out ++ emission conf s ⟨p, (s.producer p).queue.head⟩ record.route)
      (hqueue : (s'.producer p).queue =
        { (s.producer p).queue with head := (s.producer p).queue.head + 1 })
      (hother : ∀ q, q ≠ p → (s'.producer q).queue = (s.producer q).queue)
  | flush (hc : (∃ requested, s.consumer = .flushSinks requested) ∨ s.consumer = .finalFlush)
      (hout : s'.out = s.out ++ flushEvents conf)
      (hqueue : ∀ p, (s'.producer p).queue = (s.producer p).queue)
  | keep (hout : s'.out = s.out) (hqueue : ∀ p, (s'.producer p).queue = (s.producer p).queue)

theorem ConsumerStep.output (hstep : ConsumerStep conf s s') :
    ConsumerStep.Output conf s s' := by
  cases hstep with
  | consume hc hlt hrecord =>
      rename_i round resume p tail record
      refine .write p record hc rfl hrecord rfl ?_ fun q hq => ?_
      · exact congrArg Producer.queue (State.setProducer_producer_self _)
      · exact congrArg Producer.queue (State.setProducer_producer_of_ne _ hq)
  | flushSinks hc => exact .flush (.inl ⟨_, hc⟩) rfl fun _ => rfl
  | finalFlush hc => exact .flush (.inr hc) rfl fun _ => rfl
  | clearEnqueued | remarkWon | markFree | pushFree =>
      refine .keep rfl fun p => queue_setProducer ?_
      rintro rfl
      rfl
  | repost =>
      refine .keep ?_ fun p => ?_
      · obtain ⟨registry, hr⟩ := State.publishReadyBit_eq s _
        rw [hr]
      · exact congrArg (fun f => (f p).queue) State.publishReadyBit_producer
  | _ => exact .keep rfl fun _ => rfl

/-- The record the consumer takes off its queue with a step. -/
def takesOff (s : State) : Action → Option RecordId
  | .consumer =>
    match s.consumer with
    | .visit _ _ p (.consume tail) =>
      if (s.producer p).queue.head < tail then some ⟨p, (s.producer p).queue.head⟩ else none
    | _ => none
  | _ => none

/-- The consumer takes one record, or none. -/
theorem ConsumerStep.takesOff (hstep : ConsumerStep conf s s') :
    (∃ p record stage, s.consumer.visit? = some (p, stage) ∧
      Handoff.takesOff s .consumer = some ⟨p, (s.producer p).queue.head⟩ ∧
      (s.producer p).queue.published[(s.producer p).queue.head]? = some record ∧
      (s'.producer p).queue =
        { (s.producer p).queue with head := (s.producer p).queue.head + 1 } ∧
      ∀ q, q ≠ p → (s'.producer q).queue = (s.producer q).queue) ∨
    Handoff.takesOff s .consumer = none ∧ ∀ p, (s'.producer p).queue = (s.producer p).queue := by
  cases hstep with
  | @consume round resume p tail record hc hlt hrecord =>
      refine .inl ⟨p, record, _, by rw [hc]; rfl, ?_, hrecord, ?_, fun q hq => ?_⟩
      · simp only [Handoff.takesOff, hc, if_pos hlt]
      · exact congrArg Producer.queue (State.setProducer_producer_self _)
      · exact congrArg Producer.queue (State.setProducer_producer_of_ne _ hq)
  | consumed hc hle =>
      refine .inr ⟨?_, fun _ => rfl⟩
      simp only [Handoff.takesOff, hc, if_neg (Nat.not_lt_of_le hle)]
  | clearEnqueued hc | remarkWon hc | markFree hc | pushFree hc =>
      refine .inr ⟨by simp only [Handoff.takesOff, hc], fun p => queue_setProducer ?_⟩
      rintro rfl
      rfl
  | repost hc hstage =>
      refine .inr ⟨?_, fun p => congrArg (fun f => (f p).queue) State.publishReadyBit_producer⟩
      rcases hstage with rfl | rfl <;> simp only [Handoff.takesOff, hc]
  | notRetired hc hstage =>
      refine .inr ⟨?_, fun _ => rfl⟩
      rcases hstage with rfl | rfl <;> simp only [Handoff.takesOff, hc]
  | sampleTicket hc | startFlush hc | noFlush hc | flushSinks hc | completeFlush hc | stop hc
  | sleep hc | again hc | awake hc | finalFlush hc | singleVisit hc | singleSkip hc | countFlush hc
  | countWords hc | takeWord hc | wordsDone hc | bitsDone hc | bitVisit hc | slotVisit hc
  | slotsDone hc | passDone hc | readTail hc | firstEmpty hc | firstFilled hc | secondEmpty hc
  | secondFilled hc | remarkLost hc | isRetired hc =>
      exact .inr ⟨by simp only [Handoff.takesOff, hc], fun _ => rfl⟩

/-! ## Writes -/

/-- The sink an event writes the record to. -/
def Event.writes? (r : RecordId) : Event → Option SinkRef
  | .write sink record _ => if record = r then some sink else none
  | .flush _ => none

/-- The sinks a record was written to, in order. -/
def writesOf (r : RecordId) (out : List Event) : List SinkRef := out.filterMap (Event.writes? r)

@[simp] theorem writesOf_append (out out' : List Event) :
    writesOf r (out ++ out') = writesOf r out ++ writesOf r out' :=
  List.filterMap_append ..

@[simp] theorem writesOf_flushEvents : writesOf r (flushEvents conf) = [] := by
  refine List.filterMap_eq_nil_iff.mpr fun event hevent => ?_
  obtain ⟨sink, -, rfl⟩ := List.mem_map.mp hevent
  rfl

theorem writesOf_emission_self (route : ℕ) :
    writesOf r (emission conf s r route) = conf.targets route := by
  simp only [writesOf, emission, List.filterMap_map]
  refine (List.filterMap_congr fun sink _ => ?_).trans List.filterMap_some
  exact if_pos rfl

theorem writesOf_emission_of_ne {record : RecordId} (route : ℕ) (h : record ≠ r) :
    writesOf r (emission conf s record route) = [] := by
  refine List.filterMap_eq_nil_iff.mpr fun event hevent => ?_
  obtain ⟨sink, -, rfl⟩ := List.mem_map.mp hevent
  exact if_neg h

/-- The sinks that get a record, once it was published. -/
def targetsOf (conf : Sealed) (s : State) (r : RecordId) : List SinkRef :=
  match (s.producer r.producer).queue.published[r.number]? with
  | some record => conf.targets record.route
  | none => []

/-- The consumer has taken the record off its queue. -/
def Taken (s : State) (r : RecordId) : Prop := r.number < (s.producer r.producer).queue.head

/-- What was taken was written once to each of its sinks, and nothing else was. -/
def WrittenOnce (conf : Sealed) (s : State) : Prop :=
  ∀ r, (Taken s r → writesOf r s.out = targetsOf conf s r) ∧ (¬ Taken s r → writesOf r s.out = [])

theorem targetsOf_published {record : Record}
    (h : (s.producer r.producer).queue.published[r.number]? = some record) :
    targetsOf conf s r = conf.targets record.route := by
  simp only [targetsOf, h]

theorem targetsOf_congr (h : (s'.producer r.producer).queue.published[r.number]? =
    (s.producer r.producer).queue.published[r.number]?) :
    targetsOf conf s' r = targetsOf conf s r := by
  rw [targetsOf, targetsOf, h]

/-- A step keeps the records that were published. -/
theorem ThreadStep.published (hstep : ThreadStep conf s t s') {record : Record}
    (h : (s.producer r.producer).queue.published[r.number]? = some record) :
    (s'.producer r.producer).queue.published[r.number]? = some record := by
  rcases hstep.queue r.producer with hq | ⟨channel, truncated, -, -, hq⟩
  · rw [hq, h]
  · rw [hq]
    have hlt := (List.getElem?_eq_some_iff.mp h).1
    exact (List.getElem?_append_left hlt).trans h

theorem ConsumerStep.published (hstep : ConsumerStep conf s s') (p : ProducerId) :
    (s'.producer p).queue.published = (s.producer p).queue.published := by
  rcases hstep.output with ⟨q, record, -, -, -, -, hqueue, hother⟩ | ⟨-, -, hqueue⟩ | ⟨-, hqueue⟩
  · by_cases hp : p = q
    · rw [hp, hqueue]
    · rw [hother p hp]
  · rw [hqueue]
  · rw [hqueue]

theorem ThreadStep.head_eq (hstep : ThreadStep conf s t s') (p : ProducerId) :
    (s'.producer p).queue.head = (s.producer p).queue.head := by
  rcases hstep.queue p with hq | ⟨channel, truncated, -, -, hq⟩ <;> rw [hq]

theorem head_le_tail (h : (handoff conf).Reachable s) (p : ProducerId) :
    (s.producer p).queue.head ≤ (s.producer p).queue.tail :=
  (cellInv_of_reachable h p).ordered

/-- A record that was taken was published. -/
theorem published_of_taken (h : (handoff conf).Reachable s) (htaken : Taken s r) :
    ∃ record, (s.producer r.producer).queue.published[r.number]? = some record :=
  ⟨_, List.getElem?_eq_getElem (Nat.lt_of_lt_of_le htaken (head_le_tail h r.producer))⟩

theorem writtenOnce_of_reachable (h : (handoff conf).Reachable s) : WrittenOnce conf s := by
  refine h.invariant ?_ fun s a s' hs hw hstep => ?_
  · rintro _ ⟨level, rfl⟩
    exact fun r => ⟨nofun, fun _ => rfl⟩
  · intro r
    rcases step_cases hstep with ⟨t, hthread⟩ | hconsumer
    · rw [hthread.served_eq.1, Taken, hthread.head_eq]
      refine ⟨fun htaken => ?_, (hw r).2⟩
      obtain ⟨record, hrecord⟩ := published_of_taken hs htaken
      rw [(hw r).1 htaken, targetsOf_congr ((hthread.published hrecord).trans hrecord.symm)]
    · have htargets : targetsOf conf s' r = targetsOf conf s r :=
        targetsOf_congr (by rw [hconsumer.published])
      rw [htargets]
      rcases hconsumer.output with
        ⟨p, record, -, -, hrecord, hout, hqueue, hother⟩ | ⟨-, hout, hqueue⟩ | ⟨hout, hqueue⟩
      · obtain ⟨q, n⟩ := r
        rw [hout, writesOf_append]
        by_cases hq : q = p ∧ n = (s.producer p).queue.head
        · obtain ⟨rfl, rfl⟩ := hq
          have hnot : ¬ Taken s ⟨q, (s.producer q).queue.head⟩ := Nat.lt_irrefl _
          have htaken : Taken s' ⟨q, (s.producer q).queue.head⟩ := by
            rw [Taken, hqueue]
            exact Nat.lt_succ_self _
          refine ⟨fun _ => ?_, fun hnot' => absurd htaken hnot'⟩
          rw [(hw _).2 hnot, writesOf_emission_self, List.nil_append]
          exact (targetsOf_published hrecord).symm
        · have hne : (⟨p, (s.producer p).queue.head⟩ : RecordId) ≠ ⟨q, n⟩ := by
            rintro ⟨⟩
            exact hq ⟨rfl, rfl⟩
          have hiff : Taken s' ⟨q, n⟩ ↔ Taken s ⟨q, n⟩ := by
            by_cases hp : q = p
            · subst hp
              have hn : n ≠ (s.producer q).queue.head := fun hn => hq ⟨rfl, hn⟩
              simp only [Taken, hqueue]
              omega
            · simp only [Taken, hother q hp]
          rw [writesOf_emission_of_ne _ hne, List.append_nil, hiff]
          exact hw _
      · rw [hout, Taken, hqueue, writesOf_append, writesOf_flushEvents, List.append_nil]
        exact hw r
      · rw [hout, Taken, hqueue]
        exact hw r

/-! ## Routes -/

/-- The channel a thread logs to, once it was looked up. -/
def ThreadPc.channel? : ThreadPc → Option ℕ
  | .assertOwner channel _ => some channel
  | .claimOwner channel _ => some channel
  | .acquire _ (.log channel) => some channel
  | .produce channel _ => some channel
  | _ => none

/-- Every record belongs to a channel of the runtime. -/
structure Routed (conf : Sealed) (s : State) : Prop where
  logging : ∀ t channel, (s.pc t).channel? = some channel → channel < conf.channels.length
  published : ∀ p, ∀ record ∈ (s.producer p).queue.published, record.route < conf.channels.length

/-- Logging to a channel begins at its lookup. -/
theorem Next.channel? {pc next : ThreadPc} {channel : ℕ} (hnext : Next conf s t pc next)
    (h : next.channel? = some channel) :
    pc.channel? = some channel ∨ channel < conf.channels.length := by
  cases hnext with
  | move hmove =>
      cases hmove with
      | obtainTls _ hchannel | obtainNone _ hchannel | obtainAssert _ _ hchannel
      | obtainSingle _ _ hchannel =>
          simp only [ThreadPc.channel?, Option.some.injEq] at h
          exact .inr (h ▸ hchannel)
      | assertFirst | assertOwned => exact .inl h
      | _ => simp [ThreadPc.channel?] at h
  | claimOwner | acquireLog => exact .inl h
  | _ => simp [ThreadPc.channel?] at h

theorem routed_of_reachable (h : (handoff conf).Reachable s) : Routed conf s := by
  refine h.invariant ?_ fun s a s' hs hr hstep => ?_
  · rintro _ ⟨level, rfl⟩
    exact ⟨nofun, nofun⟩
  · rcases step_cases hstep with ⟨t, hthread⟩ | hconsumer
    · refine ⟨fun other channel hc => ?_, fun p record hmem => ?_⟩
      · by_cases heq : other = t
        · subst heq
          rcases hthread.next.channel? hc with hold | hlt
          · exact hr.logging _ channel hold
          · exact hlt
        · exact hr.logging other channel (hthread.pc_of_ne heq ▸ hc)
      · rcases hthread.queue p with hq | ⟨channel, truncated, hpc, -, hq⟩
        · exact hr.published p record (hq ▸ hmem)
        · rw [hq] at hmem
          rcases List.mem_append.mp hmem with hold | hnew
          · exact hr.published p record hold
          · rw [List.mem_singleton.mp hnew]
            exact hr.logging t channel (by rw [hpc]; rfl)
    · refine ⟨fun other channel hc => ?_, fun p record hmem => ?_⟩
      · exact hr.logging other channel (hconsumer.pc_eq ▸ hc)
      · exact hr.published p record (hconsumer.published p ▸ hmem)

theorem targets_eq {route : ℕ} {channel : Channel} (h : conf.channels[route]? = some channel) :
    conf.targets route =
      .configured channel.sink :: (List.range conf.customSinks).map .custom := by
  simp only [Sealed.targets, h]

/-- Every sink of a route is flushed by `flush_runtime_sinks`. -/
theorem mem_sinks_of_targets {route : ℕ} {sink : SinkRef} (h : sink ∈ conf.targets route) :
    sink ∈ conf.sinks := by
  unfold Sealed.targets at h
  split at h
  · simp at h
  · rename_i channel hchannel
    refine List.mem_append.mpr ((List.mem_cons.mp h).imp (fun hs => ?_) id)
    have hlt := conf.sink_lt channel (List.mem_of_getElem? hchannel)
    exact List.mem_map.mpr ⟨channel.sink, List.mem_range.mpr hlt, hs.symm⟩

/-! ## Delivery -/

/-- Some flush of the sink comes after every write of the record to it. -/
def FlushedAfter (out : List Event) (r : RecordId) (sink : SinkRef) : Prop :=
  ∃ before after, out = before ++ after ∧ sink ∉ writesOf r after ∧ .flush sink ∈ after

/-- The record was written once to its route's sink and once to every custom sink, and each of
them was flushed after that. -/
def Delivered (conf : Sealed) (s : State) (r : RecordId) : Prop :=
  ∃ record channel, (s.producer r.producer).queue.published[r.number]? = some record ∧
    conf.channels[record.route]? = some channel ∧
    writesOf r s.out = .configured channel.sink :: (List.range conf.customSinks).map .custom ∧
    ∀ sink ∈ writesOf r s.out, FlushedAfter s.out r sink

/-- The record was taken, and every sink was flushed since. -/
structure Secured (conf : Sealed) (s : State) (r : RecordId) : Prop where
  taken : Taken s r
  flushed : ∀ sink ∈ conf.sinks, FlushedAfter s.out r sink

theorem Secured.delivered (h : Secured conf s r) (hs : (handoff conf).Reachable s) :
    Delivered conf s r := by
  obtain ⟨record, hrecord⟩ := published_of_taken hs h.taken
  have hlt := (routed_of_reachable hs).published r.producer record (List.mem_of_getElem? hrecord)
  have hchannel := List.getElem?_eq_getElem hlt
  have hwrites := (((writtenOnce_of_reachable hs) r).1 h.taken).trans (targetsOf_published hrecord)
  refine ⟨record, _, hrecord, hchannel, hwrites.trans (targets_eq hchannel), fun sink hsink => ?_⟩
  exact h.flushed sink (mem_sinks_of_targets (hwrites ▸ hsink))

theorem FlushedAfter.append {out out' : List Event} {sink : SinkRef} (h : FlushedAfter out r sink)
    (hnone : writesOf r out' = []) : FlushedAfter (out ++ out') r sink := by
  obtain ⟨before, after, rfl, hwrites, hflush⟩ := h
  refine ⟨before, after ++ out', List.append_assoc .., ?_, List.mem_append_left _ hflush⟩
  rwa [writesOf_append, hnone, List.append_nil]

theorem flushedAfter_flushEvents (out : List Event) {sink : SinkRef} (h : sink ∈ conf.sinks) :
    FlushedAfter (out ++ flushEvents conf) r sink :=
  ⟨out, flushEvents conf, rfl, by simp, List.mem_map.mpr ⟨sink, h, rfl⟩⟩

theorem Taken.thread (h : Taken s r) (hstep : ThreadStep conf s t s') : Taken s' r := by
  rwa [Taken, hstep.head_eq]

theorem Taken.consumer (h : Taken s r) (hstep : ConsumerStep conf s s') : Taken s' r := by
  rcases hstep.output with ⟨p, record, -, -, -, -, hqueue, hother⟩ | ⟨-, -, hqueue⟩ | ⟨-, hqueue⟩
  · by_cases hp : r.producer = p
    · subst hp
      rw [Taken, hqueue]
      exact Nat.lt_succ_of_lt h
    · rwa [Taken, hother _ hp]
  · rwa [Taken, hqueue]
  · rwa [Taken, hqueue]

theorem Secured.thread (h : Secured conf s r) (hstep : ThreadStep conf s t s') :
    Secured conf s' r :=
  ⟨h.taken.thread hstep, fun sink hsink => by
    rw [hstep.served_eq.1]
    exact h.flushed sink hsink⟩

theorem Secured.consumer (h : Secured conf s r) (hstep : ConsumerStep conf s s') :
    Secured conf s' r := by
  refine ⟨h.taken.consumer hstep, fun sink hsink => ?_⟩
  have hflushed := h.flushed sink hsink
  rcases hstep.output with ⟨p, record, -, -, -, hout, -, -⟩ | ⟨-, hout, -⟩ | ⟨hout, -⟩
  · rw [hout]
    refine hflushed.append (writesOf_emission_of_ne _ ?_)
    rintro rfl
    exact Nat.lt_irrefl _ h.taken
  · rw [hout]
    exact hflushed.append writesOf_flushEvents
  · rw [hout]
    exact hflushed

end Unlog.Handoff
