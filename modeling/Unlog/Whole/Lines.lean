import Unlog.Whole.State
import Unlog.Handoff.Flush
import Unlog.Handoff.Refinement
import Unlog.Handoff.Shutdown

/-! # From the log call to the line

Every sink gets the lines of the calls that published, each rendered from its own call, and those
of one producer in the order in which they were made. -/

namespace Unlog.Whole

open Library Emit Render
open Handoff (ProducerId RecordId Sealed Word handoff sleeping)

variable {setup : Setup} {E : Type} {cstr : ℕ → Text} {localtime : ℤ → Tm}
  {x x' : State setup E} {request : LogRequest E} {p : ProducerId} {r : RecordId}

/-! ## The lines of a call -/

/-- The entries a record of a channel goes to. -/
def Setup.entries (setup : Setup) (stored : Config × ℕ) : List SinkEntry :=
  sinkEntryFor stored.1 (some stored.2) ::
    setup.customSinks.map fun custom => sinkEntryFor custom.1 (some custom.2)

/-- The call, with what a slot keeps of its text. -/
def Setup.call (setup : Setup) (request : LogRequest E) : LogCall where
  route := request.route
  level := request.level
  now := request.now
  location := request.location
  message :=
    match request.formatting with
    | .text formatted =>
      let kept := shown setup.global.maxRecordSize formatted
      kept.take (kept.length % 2 ^ 32)
    | .throws _ _ => []

section Lines

variable (setup) (cstr) (localtime)

/-- What a record of the call looks like at each of its sinks. -/
def lines (request : LogRequest E) : List Written :=
  match setup.channels[request.route]? with
  | none => []
  | some stored => (setup.entries stored).map fun entry =>
    ⟨entry.sink, shownLine cstr localtime setup.anchors setup.global.clockType entry
      (capturedEntry (channelPolicyFor stored.1) stored.1.name (setup.call request))⟩

end Lines

/-- The lines of a record that was logged. -/
def State.lines (cstr : ℕ → Text) (localtime : ℤ → Tm) (x : State setup E) (r : RecordId) :
    List Written :=
  ((x.logged r.producer)[r.number]?).elim [] (Whole.lines setup cstr localtime)

/-! ## One record -/

/-- The slot is the record of the call. -/
def Records (setup : Setup) (request : LogRequest E)
    (slot : BasicRecordSlot setup.global.maxRecordSize) : Prop :=
  ∃ stored formatted, setup.channels[request.route]? = some stored ∧
    request.formatting = .text formatted ∧
    Holds (channelPolicyFor stored.1) request formatted slot

/-- What the consumer has of the registrations while the sinks are there. -/
structure Attached (cstr : ℕ → Text) (x : State setup E) : Prop where
  consuming : Consuming cstr setup.registrations setup.global.clockType setup.anchors x.emission
  names : x.emission.runtime.channels.map RouteState.name =
    setup.channels.map fun stored => stored.1.name

theorem interpret_clearBuffer {σ : Type} (resolveBasename : Option (BasenameResolver σ))
    (sink : SinkEntry) (entry : LogEntry) (tm : Tm) (millis : ℕ) (elapsed : Text) (text : Text)
    (context : σ) :
    interpret cstr resolveBasename (clearBuffer sink) entry tm millis elapsed text context =
      interpret cstr resolveBasename sink entry tm millis elapsed text context := by
  fun_induction interpret cstr resolveBasename sink entry tm millis elapsed text context with
  | case1 context => rfl
  | case2 context c rest hplain next ih =>
      rw [interpret_plain cstr resolveBasename (clearBuffer sink) entry tm millis elapsed hplain,
        ih]
  | case3 context c hpercent =>
      rw [interpret.eq_def]
      exact if_neg hpercent
  | case4 context c hpercent token rest field next ih =>
      rw [interpret.eq_def]
      refine (if_neg hpercent).trans ?_
      exact congrArg (fun next : Text × σ => (field.1 ++ next.1, next.2)) ih

theorem shownLine_clearBuffer (anchors : StartupAnchors) (clockType : ClockType)
    (sink : SinkEntry) (entry : LogEntry) :
    shownLine cstr localtime anchors clockType (clearBuffer sink) entry =
      shownLine cstr localtime anchors clockType sink entry := by
  rw [shownLine, interpret_clearBuffer]
  rfl

theorem lines_of_channel {stored : Config × ℕ}
    (h : setup.channels[request.route]? = some stored) :
    lines setup cstr localtime request = (setup.entries stored).map fun entry =>
      ⟨entry.sink, shownLine cstr localtime setup.anchors setup.global.clockType entry
        (capturedEntry (channelPolicyFor stored.1) stored.1.name (setup.call request))⟩ := by
  simp only [lines, h]

/-- The entry is rebuilt from the slot as the call left it there. -/
theorem makeRuntimeLogEntry_records {slot : BasicRecordSlot setup.global.maxRecordSize}
    {channels : List RouteState} {route : RouteState} {stored : Config × ℕ} {formatted : Text}
    (hformatting : request.formatting = .text formatted)
    (hholds : Holds (channelPolicyFor stored.1) request formatted slot)
    (hroute : channels[request.route]? = some route) (hname : route.name = stored.1.name) :
    makeRuntimeLogEntry channels slot.header slot.message =
      capturedEntry (channelPolicyFor stored.1) stored.1.name (setup.call request) := by
  have hmessage : slot.message = (setup.call request).message := by
    rw [hholds.readBack, Setup.call, hformatting]
  rw [hholds.header, makeRuntimeLogEntry_captureHeader hroute, hname, hmessage]
  rfl

theorem emitRuntimeSlot_lines (h : Attached cstr x)
    {slot : BasicRecordSlot setup.global.maxRecordSize} (hrecords : Records setup request slot) :
    (emitRuntimeSlot cstr localtime x.emission slot.header slot.message).written =
      x.emission.written ++ lines setup cstr localtime request := by
  obtain ⟨stored, formatted, hstored, hformatting, hholds⟩ := hrecords
  obtain ⟨route, hroute, hclear⟩ := h.consuming.stored.getElem? hstored
  have hi : slot.header.route = some request.route := by rw [hholds.header, captureHeader]
  rw [(written_emitRuntimeSlot cstr localtime h.consuming hi hroute slot.message).1]
  have hname : route.name = stored.1.name := by
    have hmap := congrArg (fun list => list[request.route]?) h.names
    simp only [List.getElem?_map, hroute, hstored, Option.map_some, Option.some.injEq] at hmap
    exact hmap
  have hentry := makeRuntimeLogEntry_records hformatting hholds hroute hname
  have hentries : (route.sink :: x.emission.runtime.customSinks).map clearBuffer =
      setup.entries stored := by
    rw [List.map_cons, h.consuming.stored.customSinks, hclear]
    rfl
  rw [lines_of_channel hstored, ← hentries, List.map_map, hentry]
  refine congrArg (x.emission.written ++ ·) (List.map_congr_left fun sink _ => ?_)
  simp only [Function.comp_apply, shownLine_clearBuffer]
  rfl

theorem map_name_set {channels : List RouteState} {i : ℕ} {route : RouteState}
    (hr : channels[i]? = some route) (sink : SinkEntry) :
    (channels.set i { route with sink := sink }).map RouteState.name =
      channels.map RouteState.name := by
  obtain ⟨hlt, hget⟩ := List.getElem?_eq_some_iff.mp hr
  rw [List.map_set]
  refine List.ext_getElem? fun j => ?_
  by_cases hj : i = j
  · subst hj
    simp [hlt, hget]
  · simp [List.getElem?_set_ne hj]

theorem Attached.emit (h : Attached cstr x) {slot : BasicRecordSlot setup.global.maxRecordSize}
    (hrecords : Records setup request slot) {emission : Emission}
    (hemission : emission = emitRuntimeSlot cstr localtime x.emission slot.header slot.message) :
    Consuming cstr setup.registrations setup.global.clockType setup.anchors emission ∧
      emission.runtime.channels.map RouteState.name =
        setup.channels.map fun stored => stored.1.name := by
  obtain ⟨stored, formatted, hstored, hformatting, hholds⟩ := hrecords
  obtain ⟨route, hroute, -⟩ := h.consuming.stored.getElem? hstored
  have hi : slot.header.route = some request.route := by rw [hholds.header, captureHeader]
  subst hemission
  refine ⟨(written_emitRuntimeSlot cstr localtime h.consuming hi hroute slot.message).2, ?_⟩
  rw [emitRuntimeSlot_of_route cstr localtime h.consuming.stored hi hroute, ← h.names]
  exact map_name_set hroute _

/-! ## The queues -/

section Queues

variable {conf : Sealed} {s s' : Handoff.State} {a : Handoff.Action} {t channel : ℕ}
  {maxRecordSize : ℕ}

/-- `produce` ran the callback to its end, or leaves the queue alone. -/
theorem produce_cases {b : Backend maxRecordSize} {policy : ChannelPolicy}
    {storage : Payload maxRecordSize}
    {produced : Backend maxRecordSize × Bool × ProduceRecordOutcome E × List SlotEvent}
    (h : produce conf b p policy storage request = some produced) :
    (produced.1 = b ∧ produced.2.1 = false ∧
      (tell produced.2.2.1 = .dropped ∨ tell produced.2.2.1 = .error)) ∨
    ∃ slot formatted, request.formatting = .text formatted ∧
      Holds policy request formatted slot ∧
      produced.1 = b.publish p request.route slot ∧ produced.2.1 = true ∧
      (b.shared.producer p).queue.tail - (b.shared.producer p).queue.head < conf.capacity p.pages ∧
      (tell produced.2.2.1 = .written ∨ tell produced.2.2.1 = .truncated) := by
  simp only [produce] at h
  split at h
  case isTrue =>
    obtain rfl := Option.some.inj h
    exact .inl ⟨rfl, rfl, .inl rfl⟩
  case isFalse hroom =>
    obtain ⟨record, hrecord, rfl⟩ := Option.map_eq_some_iff.mp h
    obtain ⟨record', hrecord', hproduced⟩ := produceRuntimeRecord_produced policy storage request
    obtain rfl : record' = record := Option.some.inj (hrecord'.symm.trans hrecord)
    cases hproduced with
    | dropped => exact .inl ⟨rfl, rfl, .inl rfl⟩
    | threw => exact .inl ⟨rfl, rfl, .inr rfl⟩
    | @published slot formatted hformatting hholds =>
        refine .inr ⟨slot, formatted, hformatting, hholds, rfl, rfl, Nat.lt_of_not_le hroom, ?_⟩
        cases slot.header.truncated with
        | false => exact .inl rfl
        | true => exact .inr rfl

theorem producer_of_dropped {outcome : Handoff.Outcome} (hpc : s.pc t = .produce channel p)
    (h : outcome = .dropped ∨ outcome = .error)
    (hstep : Handoff.step conf s (.produce t outcome) = some s') : s'.producer = s.producer := by
  simp only [Handoff.step, hpc, Option.some.injEq] at hstep
  subst hstep
  simp only [Handoff.produceStep]
  split
  · rfl
  · rcases h with rfl | rfl <;> rfl

/-- The record is the next one of its queue. -/
theorem tail_of_published {outcome : Handoff.Outcome} (hpc : s.pc t = .produce channel p)
    (hroom : (s.producer p).queue.tail - (s.producer p).queue.head < conf.capacity p.pages)
    (h : outcome = .written ∨ outcome = .truncated)
    (hstep : Handoff.step conf s (.produce t outcome) = some s') :
    (s'.producer p).queue.tail = (s.producer p).queue.tail + 1 ∧
      ∀ q, q ≠ p → (s'.producer q).queue.tail = (s.producer q).queue.tail := by
  simp only [Handoff.step, hpc, Option.some.injEq] at hstep
  subst hstep
  simp only [Handoff.produceStep, if_neg (Nat.not_le_of_lt hroom)]
  rcases h with rfl | rfl
  all_goals
    refine ⟨by simp [Handoff.Queue.tail], fun q hq => ?_⟩
    simp [Handoff.State.setProducer_producer_of_ne _ hq]

/-- Only `produce` publishes. -/
theorem tail_of_other (ha : ∀ t outcome, a ≠ .produce t outcome)
    (hstep : Handoff.step conf s a = some s') (p : ProducerId) :
    (s'.producer p).queue.tail = (s.producer p).queue.tail := by
  cases Handoff.step_kind hstep with
  | call => rfl
  | consumer hconsumer => exact congrArg List.length (hconsumer.published p)
  | thread t ht hbusy hthread =>
      rcases hthread.queue p with hsame | ⟨channel, truncated, hpc, -⟩
      · rw [hsame]
      · cases a with
        | produce other outcome => exact absurd rfl (ha other outcome)
        | call | thread =>
            obtain rfl := Option.some.inj ht
            simp [Handoff.step, Handoff.threadStep, hpc] at hstep
        | consumer => contradiction

/-- The consumer takes the next record of a queue, or none. -/
theorem head_of_step (hstep : Handoff.step conf s a = some s') :
    (∃ p, a = .consumer ∧ Handoff.takesOff s a = some ⟨p, (s.producer p).queue.head⟩ ∧
      (s.producer p).queue.head < (s.producer p).queue.tail ∧
      (s'.producer p).queue.head = (s.producer p).queue.head + 1 ∧
      ∀ q, q ≠ p → (s'.producer q).queue.head = (s.producer q).queue.head) ∨
    Handoff.takesOff s a = none ∧
      ∀ p, (s'.producer p).queue.head = (s.producer p).queue.head := by
  cases Handoff.step_kind hstep with
  | call => exact .inr ⟨rfl, fun _ => rfl⟩
  | thread t ht _ hthread =>
      refine .inr ⟨?_, hthread.head_eq⟩
      cases a with
      | consumer => contradiction
      | _ => rfl
  | consumer hconsumer =>
      rcases hconsumer.takesOff with ⟨p, record, stage, -, htakes, hrecord, hqueue, hother⟩ |
        ⟨hnone, hsame⟩
      · refine .inl ⟨p, rfl, htakes, (List.getElem?_eq_some_iff.mp hrecord).1, ?_, fun q hq => ?_⟩
        · rw [hqueue]
        · rw [hother q hq]
      · refine .inr ⟨hnone, fun p => ?_⟩
        rw [hsame p]

theorem reset_of_threadStep (hstep : Handoff.ThreadStep conf s t s') (h : s'.sinksReset = false) :
    s.sinksReset = false ∧ ∀ final, s.pc t ≠ .resetSinks final := by
  cases hstep with
  | resetSinks => contradiction
  | move hmove =>
      refine ⟨h, fun final hpc => ?_⟩
      rw [hpc] at hmove
      cases hmove
  | flushLeft hpc | setLevel _ hpc =>
      refine ⟨h, fun final hreset => ?_⟩
      simp [hreset] at hpc
  | publishBit hpc | publishRetired hpc =>
      obtain ⟨registry, hr⟩ := Handoff.State.publishReadyBit_eq s _
      rw [hr] at h
      exact ⟨h, by simp [hpc]⟩
  | wake hpc =>
      rename_i waker
      refine ⟨?_, by simp [hpc]⟩
      cases waker <;> exact h
  | call _ hpc | claimOwner hpc | recycle hpc | create hpc | publish _ hpc | countDropped hpc
  | countEmitted hpc | countTruncated hpc | markWon hpc | markLost hpc | retire hpc
  | retireLost hpc | flushAdmit hpc | flushRequest hpc | destroy hpc | requestStop hpc
  | joined hpc | finishDestroy _ hpc => exact ⟨h, by simp [hpc]⟩

/-- The sinks stay reset, and it is `shutdown_runtime_state` that resets them. -/
theorem reset_of_step (hstep : Handoff.step conf s a = some s') (h : s'.sinksReset = false) :
    s.sinksReset = false ∧ ∀ final, a.thread?.map s.pc ≠ some (.resetSinks final) := by
  cases Handoff.step_kind hstep with
  | call t call hidle => exact ⟨h, by simp [Handoff.Action.thread?, hidle]⟩
  | thread t ht _ hthread =>
      obtain ⟨hold, hpc⟩ := reset_of_threadStep hthread h
      exact ⟨hold, by simpa [ht] using hpc⟩
  | consumer hconsumer =>
      rw [hconsumer.control_eq.2.2.2] at h
      exact ⟨h, by simp [Handoff.Action.thread?]⟩

end Queues

/-! ## The invariant -/

/-- Behind each record of a queue stand its slot and the call that made it. -/
structure Stocked (x : State setup E) : Prop where
  reached : (sleeping setup.sealed).Reachable x.shared
  slots : ∀ p, (x.slots p).length = (x.shared.state.producer p).queue.tail
  records : ∀ p, List.Forall₂ (Records setup) (x.logged p) (x.slots p)

theorem Stocked.handoff (h : Stocked x) : (handoff setup.sealed).Reachable x.shared.state :=
  (Handoff.waiting setup.sealed).simulation.reachable h.reached

/-- What a call of `produce` does to the slots, in step with the queues. -/
inductive Produces (x x' : State setup E) (request : LogRequest E) : Prop
  | kept (hslots : x'.slots = x.slots) (hlogged : x'.logged = x.logged)
      (htail : ∀ p,
        (x'.shared.state.producer p).queue.tail = (x.shared.state.producer p).queue.tail)
  | published (p : ProducerId) (slot : BasicRecordSlot setup.global.maxRecordSize)
      (hrecords : Records setup request slot)
      (hslots : x'.slots = Function.update x.slots p (x.slots p ++ [slot]))
      (hlogged : x'.logged = Function.update x.logged p (x.logged p ++ [request]))
      (htail : ∀ q, (x'.shared.state.producer q).queue.tail =
        (x.shared.state.producer q).queue.tail + if q = p then 1 else 0)

theorem Produces.logged_mono (h : Produces x x' request) (q : ProducerId) :
    x.logged q <+: x'.logged q := by
  cases h with
  | kept _ hsame => rw [hsame]
  | published p slot _ _ hmore =>
      rw [hmore]
      by_cases hq : q = p
      · subst hq
        simp
      · simp [hq]

theorem produces_of_step {t : ℕ} {storage : Payload setup.global.maxRecordSize}
    (hstep : produceStep x t storage request = some x') :
    Produces x x' request ∧ x'.emission = x.emission ∧ ∃ outcome,
      (sleeping setup.sealed).step x.shared (.act (.produce t outcome)) = some x'.shared := by
  unfold produceStep at hstep
  split at hstep
  case h_2 => contradiction
  case h_1 channel p hpc =>
    split at hstep
    case h_1 => contradiction
    case h_2 stored hstored =>
      split at hstep
      case isTrue => contradiction
      case isFalse hroute =>
        obtain rfl : request.route = channel := not_not.mp hroute
        obtain ⟨produced, hproduced, hshared⟩ := Option.bind_eq_some_iff.mp hstep
        obtain ⟨shared, hnext, rfl⟩ := Option.map_eq_some_iff.mp hshared
        refine ⟨?_, rfl, _, hnext⟩
        have hact := Waits.act_state hnext
        rcases produce_cases hproduced with ⟨hsame, hnot, htell⟩ |
          ⟨slot, formatted, hformatting, hholds, hpublish, hdone, hroom, htell⟩
        · refine .kept ?_ ?_ fun q => ?_
          · simp only [hsame]
          · simp only [hnot, Bool.false_eq_true, if_false]
          · rw [producer_of_dropped hpc htell hact]
        · obtain ⟨htail, hother⟩ := tail_of_published hpc hroom htell hact
          refine .published p slot ⟨stored, formatted, hstored, hformatting, hholds⟩ ?_ ?_
            fun q => ?_
          · simp only [hpublish, Backend.publish]
          · simp only [hdone, if_true]
          · by_cases hq : q = p
            · subst hq
              rw [if_pos rfl]
              exact htail
            · rw [if_neg hq]
              exact hother q hq

theorem other_of_step {b : Waits.SleepyAction Handoff.Action (Option ℕ)}
    (hstep : step cstr localtime x (.other b) = some x') :
    (∀ t outcome, b ≠ .act (.produce t outcome)) ∧
      (sleeping setup.sealed).step x.shared b = some x'.shared ∧ x'.slots = x.slots ∧
      x'.logged = x.logged ∧ x'.emission = emissionAfter cstr localtime x b := by
  unfold step at hstep
  split at hstep
  case h_1 => contradiction
  case h_2 => contradiction
  case h_3 hproduce heq =>
    obtain rfl := Action.other.inj heq
    obtain ⟨shared, hnext, rfl⟩ := Option.map_eq_some_iff.mp hstep
    refine ⟨fun t outcome hb => ?_, hnext, rfl, rfl, rfl⟩
    subst hb
    exact hproduce t outcome rfl

theorem Stocked.step {a : Action setup E} (h : Stocked x)
    (hstep : step cstr localtime x a = some x') : Stocked x' := by
  cases a with
  | produce t storage request =>
      obtain ⟨hproduces, -, outcome, hnext⟩ := produces_of_step hstep
      have hreached := h.reached.step hnext
      cases hproduces with
      | kept hslots hlogged htail =>
          refine ⟨hreached, fun p => ?_, fun p => ?_⟩
          · rw [hslots, htail, h.slots]
          · rw [hslots, hlogged]
            exact h.records p
      | published p slot hrecords hslots hlogged htail =>
          refine ⟨hreached, fun q => ?_, fun q => ?_⟩
          · rw [hslots, htail, ← h.slots q]
            by_cases hq : q = p
            · subst hq
              simp
            · simp [hq]
          · rw [hslots, hlogged]
            by_cases hq : q = p
            · subst hq
              simp only [Function.update_self]
              exact List.rel_append (h.records q) (.cons hrecords .nil)
            · simp only [Function.update_of_ne hq]
              exact h.records q
  | other b =>
      obtain ⟨hproduce, hnext, hslots, hlogged, -⟩ := other_of_step hstep
      refine ⟨h.reached.step hnext, fun p => ?_, fun p => ?_⟩
      · rw [hslots, h.slots]
        rcases Waits.sleepyStep_state hnext with ⟨a, rfl, hact⟩ | ⟨-, hsame⟩
        · refine (tail_of_other (fun t outcome ha => ?_) hact p).symm
          exact hproduce t outcome (congrArg _ ha)
        · rw [hsame]
      · rw [hslots, hlogged]
        exact h.records p

/-! ## The order of the lines -/

/-- An order of the records that were consumed, with those of each producer as published. -/
def Merges (s : Handoff.State) (order : List RecordId) : Prop :=
  ∀ p, order.filter (fun r => r.producer = p) =
    (List.range (s.producer p).queue.head).map (RecordId.mk p)

theorem Merges.lt {s : Handoff.State} {order : List RecordId} (h : Merges s order)
    (hr : r ∈ order) : r.number < (s.producer r.producer).queue.head := by
  have hmem : r ∈ order.filter fun other => other.producer = r.producer :=
    List.mem_filter.mpr ⟨hr, by simp⟩
  rw [h r.producer] at hmem
  obtain ⟨n, hn, heq⟩ := List.mem_map.mp hmem
  rw [← heq]
  exact List.mem_range.mp hn

theorem Merges.congr {s s' : Handoff.State} {order : List RecordId} (h : Merges s order)
    (hhead : ∀ p, (s'.producer p).queue.head = (s.producer p).queue.head) : Merges s' order := by
  intro p
  rw [hhead p]
  exact h p

theorem Merges.take {s s' : Handoff.State} {order : List RecordId} (h : Merges s order)
    (hhead : (s'.producer p).queue.head = (s.producer p).queue.head + 1)
    (hother : ∀ q, q ≠ p → (s'.producer q).queue.head = (s.producer q).queue.head) :
    Merges s' (order ++ [⟨p, (s.producer p).queue.head⟩]) := by
  intro q
  rw [List.filter_append, h q]
  by_cases hq : q = p
  · subst hq
    simp [hhead, List.range_succ]
  · have hne : p ≠ q := fun heq => hq heq.symm
    simp [hother q hq, hne]

theorem lines_congr (hlogged : x.logged r.producer <+: x'.logged r.producer)
    (hlt : r.number < (x.logged r.producer).length) :
    x'.lines cstr localtime r = x.lines cstr localtime r := by
  obtain ⟨rest, hrest⟩ := hlogged
  rw [State.lines, State.lines, ← hrest, List.getElem?_append_left hlt]

/-- What the consumer has rendered so far. -/
structure Rendered (cstr : ℕ → Text) (localtime : ℤ → Tm) (x : State setup E) : Prop where
  attached : x.shared.state.sinksReset = false → Attached cstr x
  order : ∃ order, Merges x.shared.state order ∧
    x.emission.written = order.flatMap (x.lines cstr localtime)

theorem Stocked.length_logged (h : Stocked x) (p : ProducerId) :
    (x.logged p).length = (x.shared.state.producer p).queue.tail :=
  (h.records p).length_eq.trans (h.slots p)

/-- Lines that were rendered stay as they are. -/
theorem Stocked.lines_eq (cstr : ℕ → Text) (localtime : ℤ → Tm) (h : Stocked x)
    {order : List RecordId} (hmerges : Merges x.shared.state order)
    (hlogged : ∀ p, x.logged p <+: x'.logged p) :
    order.flatMap (x'.lines cstr localtime) = order.flatMap (x.lines cstr localtime) := by
  refine List.flatMap_congr fun r hr => lines_congr (hlogged r.producer) ?_
  rw [h.length_logged]
  exact Nat.lt_of_lt_of_le (hmerges.lt hr) (Handoff.head_le_tail h.handoff r.producer)

theorem Attached.congr (h : Attached cstr x) (hemission : x'.emission = x.emission) :
    Attached cstr x' := by
  refine ⟨?_, ?_⟩
  · rw [hemission]
    exact h.consuming
  · rw [hemission]
    exact h.names

/-- The record that is taken has its slot and its call. -/
theorem Stocked.records_at (h : Stocked x) {n : ℕ}
    (hlt : n < (x.shared.state.producer p).queue.tail) :
    ∃ request slot, (x.logged p)[n]? = some request ∧ (x.slots p)[n]? = some slot ∧
      Records setup request slot := by
  have hlogged : n < (x.logged p).length := h.length_logged p ▸ hlt
  have hslots : n < (x.slots p).length := h.slots p ▸ hlt
  refine ⟨(x.logged p)[n], (x.slots p)[n], List.getElem?_eq_getElem hlogged,
    List.getElem?_eq_getElem hslots, ?_⟩
  exact (h.records p).get hlogged hslots

/-- The consumer renders the record it takes. -/
theorem Rendered.consume (h : Rendered cstr localtime x) (hstocked : Stocked x)
    (hlive : x.shared.state.sinksReset = false)
    (htakes : Handoff.takesOff x.shared.state .consumer =
      some ⟨p, (x.shared.state.producer p).queue.head⟩)
    (hlt : (x.shared.state.producer p).queue.head < (x.shared.state.producer p).queue.tail)
    (hhead : (x'.shared.state.producer p).queue.head =
      (x.shared.state.producer p).queue.head + 1)
    (hother : ∀ q, q ≠ p → (x'.shared.state.producer q).queue.head =
      (x.shared.state.producer q).queue.head)
    (hlogged : x'.logged = x.logged)
    (hemission : x'.emission = emissionAfter cstr localtime x (.act .consumer)) :
    Rendered cstr localtime x' := by
  obtain ⟨request, slot, hrequest, hslot, hrecords⟩ := hstocked.records_at hlt
  have hemit :
      x'.emission = emitRuntimeSlot cstr localtime x.emission slot.header slot.message := by
    rw [hemission]
    simp only [emissionAfter, htakes, hslot]
  have hattached := (h.attached hlive).emit hrecords hemit
  refine ⟨fun _ => ⟨hattached.1, hattached.2⟩, ?_⟩
  obtain ⟨order, hmerges, hwritten⟩ := h.order
  refine ⟨order ++ [⟨p, (x.shared.state.producer p).queue.head⟩], hmerges.take hhead hother, ?_⟩
  have hsame := hstocked.lines_eq cstr localtime hmerges
    fun q => by rw [hlogged]
  have hlines : x'.lines cstr localtime ⟨p, (x.shared.state.producer p).queue.head⟩ =
      lines setup cstr localtime request := by
    simp only [State.lines, hlogged, hrequest, Option.elim_some]
  rw [List.flatMap_append, hsame, List.flatMap_singleton, hlines, ← hwritten, hemit]
  exact emitRuntimeSlot_lines (h.attached hlive) hrecords

/-- An access that takes no record renders none. -/
theorem Rendered.keep (h : Rendered cstr localtime x) (hstocked : Stocked x)
    (hreset : x'.shared.state.sinksReset = false →
      x.shared.state.sinksReset = false ∧ x'.emission = x.emission)
    (hwritten : x'.emission.written = x.emission.written)
    (hhead : ∀ p, (x'.shared.state.producer p).queue.head =
      (x.shared.state.producer p).queue.head)
    (hlogged : ∀ p, x.logged p <+: x'.logged p) : Rendered cstr localtime x' := by
  refine ⟨fun hlive => ?_, ?_⟩
  · obtain ⟨hlive', hemission⟩ := hreset hlive
    exact (h.attached hlive').congr hemission
  · obtain ⟨order, hmerges, hlines⟩ := h.order
    refine ⟨order, hmerges.congr hhead, ?_⟩
    rw [hwritten, hlines, hstocked.lines_eq cstr localtime hmerges hlogged]

theorem Rendered.produce (h : Rendered cstr localtime x) (hstocked : Stocked x) {t : ℕ}
    {storage : Payload setup.global.maxRecordSize}
    (hstep : produceStep x t storage request = some x') : Rendered cstr localtime x' := by
  obtain ⟨hproduces, hemission, outcome, hnext⟩ := produces_of_step hstep
  have hact : Handoff.step setup.sealed x.shared.state (.produce t outcome) =
      some x'.shared.state := Waits.act_state hnext
  have hhead : ∀ p, (x'.shared.state.producer p).queue.head =
      (x.shared.state.producer p).queue.head := by
    rcases head_of_step hact with ⟨p, hconsumer, -⟩ | ⟨-, hsame⟩
    · contradiction
    · exact hsame
  refine h.keep hstocked (fun hlive => ⟨(reset_of_step hact hlive).1, hemission⟩) ?_ hhead
    hproduces.logged_mono
  rw [hemission]

theorem emissionAfter_of_none (cstr : ℕ → Text) (localtime : ℤ → Tm) {a : Handoff.Action}
    (h : Handoff.takesOff x.shared.state a = none) :
    (emissionAfter cstr localtime x (.act a)).written = x.emission.written ∧
      ((∀ final, a.thread?.map x.shared.state.pc ≠ some (.resetSinks final)) →
        emissionAfter cstr localtime x (.act a) = x.emission) := by
  simp only [emissionAfter, h]
  split
  case h_1 final hpc => exact ⟨rfl, fun hne => absurd hpc (hne final)⟩
  case h_2 => exact ⟨rfl, fun _ => rfl⟩

theorem Rendered.other (h : Rendered cstr localtime x) (hstocked : Stocked x)
    {b : Waits.SleepyAction Handoff.Action (Option ℕ)}
    (hstep : step cstr localtime x (.other b) = some x') : Rendered cstr localtime x' := by
  obtain ⟨-, hnext, -, hlogged, hemission⟩ := other_of_step hstep
  have hmore : ∀ p, x.logged p <+: x'.logged p := fun p => by rw [hlogged]
  rcases Waits.sleepyStep_state hnext with ⟨a, rfl, hact⟩ | ⟨hsilent, hsame⟩
  · have hact : Handoff.step setup.sealed x.shared.state a = some x'.shared.state := hact
    rcases head_of_step hact with ⟨p, rfl, htakes, hlt, hhead, hother⟩ | ⟨hnone, hhead⟩
    · refine h.consume hstocked ?_ htakes hlt hhead hother hlogged hemission
      by_contra hreset
      have hended := (Handoff.destroySound_of_reachable hstocked.handoff).reset
        (by simpa using hreset)
      simp [Handoff.takesOff, hended] at htakes
    · obtain ⟨hwritten, hsame⟩ := emissionAfter_of_none cstr localtime hnone
      refine h.keep hstocked (fun hlive => ?_) ?_ hhead hmore
      · obtain ⟨hlive', hpc⟩ := reset_of_step hact hlive
        exact ⟨hlive', hemission.trans (hsame hpc)⟩
      · rw [hemission, hwritten]
  · have hemission' : x'.emission = x.emission := by
      rw [hemission]
      cases b with
      | act => contradiction
      | _ => rfl
    refine h.keep hstocked (fun hlive => ?_) ?_ (fun p => ?_) hmore
    · rw [hsame] at hlive
      exact ⟨hlive, hemission'⟩
    · rw [hemission']
    · rw [hsame]

theorem stocked_of_reachable (h : (program setup E cstr localtime).Reachable x) : Stocked x := by
  refine h.invariant ?_ fun x a x' _ hx hstep => hx.step hstep
  rintro _ ⟨level, rfl⟩
  exact ⟨.initial ⟨_, ⟨level, rfl⟩, rfl⟩, fun _ => rfl, fun _ => .nil⟩

theorem names_registered (clockType : ClockType) (anchors : StartupAnchors)
    (registrations : List Registration) :
    (registered clockType anchors registrations).channels.map RouteState.name =
      (registrations.filterMap Registration.channel?).map fun stored => stored.1.name := by
  induction registrations using List.reverseRecOn with
  | nil => rfl
  | append_singleton registrations registration ih =>
      rw [registered, List.foldl_append]
      cases registration with
      | channel conf sink =>
          simp only [List.foldl_cons, List.foldl_nil, register, RuntimeState.emplaceChannel,
            List.map_append, List.filterMap_append]
          exact congrArg (· ++ [conf.name]) ih
      | customSink conf sink =>
          simp only [List.filterMap_append, List.map_append]
          exact ih.trans (List.append_nil _).symm

theorem attached_initial (level : ℕ → LogLevel) :
    Attached cstr ({ shared := { state := .started setup.sealed level } } : State setup E) := by
  refine ⟨consuming_registered cstr setup.registrations setup.global.clockType setup.anchors, ?_⟩
  exact names_registered setup.global.clockType setup.anchors setup.registrations

theorem rendered_of_reachable (h : (program setup E cstr localtime).Reachable x) :
    Rendered cstr localtime x := by
  refine h.invariant ?_ fun x a x' hreach hx hstep => ?_
  · rintro _ ⟨level, rfl⟩
    exact ⟨fun _ => attached_initial level, [], fun p => rfl, rfl⟩
  · have hstocked := stocked_of_reachable hreach
    cases a with
    | produce t storage request => exact hx.produce hstocked hstep
    | other b => exact hx.other hstocked hstep

/-! ## From end to end -/

/-- The lines at the sinks are those of the calls that published, record by record; the records of
a producer come in the order of their calls, and a flush that is about to return has those of every
call that had returned before it. -/
structure EndToEnd (cstr : ℕ → Text) (localtime : ℤ → Tm) (x : State setup E) : Prop where
  logged : ∀ p, (x.logged p).length = (x.shared.state.producer p).queue.tail ∧
    ∀ request ∈ x.logged p, request.route < setup.channels.length ∧
      ∃ formatted, request.formatting = .text formatted
  written : ∃ order, Merges x.shared.state order ∧
    x.emission.written = order.flatMap (x.lines cstr localtime)
  flushed : ∀ t target before, x.shared.state.pc t = .flushLeave target before →
    ∀ r ∈ before, ∃ earlier later,
      x.emission.written = earlier ++ x.lines cstr localtime r ++ later

theorem Stocked.logged_text (h : Stocked x) (hrequest : request ∈ x.logged p) :
    request.route < setup.channels.length ∧ ∃ formatted, request.formatting = .text formatted := by
  obtain ⟨n, hn, rfl⟩ := List.mem_iff_getElem.mp hrequest
  obtain ⟨request', slot, hget, -, stored, formatted, hstored, hformatting, -⟩ :=
    h.records_at (h.length_logged p ▸ hn)
  obtain rfl := Option.some.inj ((List.getElem?_eq_getElem hn).symm.trans hget)
  exact ⟨(List.getElem?_eq_some_iff.mp hstored).1, formatted, hformatting⟩

/-- What was taken is in the order. -/
theorem Merges.mem {s : Handoff.State} {order : List RecordId} (h : Merges s order)
    (htaken : Handoff.Taken s r) : r ∈ order := by
  have hmem : r ∈ order.filter fun other => other.producer = r.producer := by
    rw [h r.producer]
    exact List.mem_map.mpr ⟨r.number, List.mem_range.mpr htaken, rfl⟩
  exact (List.mem_filter.mp hmem).1

/-- A record that was taken is at its sinks. -/
theorem Rendered.written (h : Rendered cstr localtime x) {r : RecordId}
    (htaken : Handoff.Taken x.shared.state r) : ∃ earlier later,
      x.emission.written = earlier ++ x.lines cstr localtime r ++ later := by
  obtain ⟨order, hmerges, hwritten⟩ := h.order
  obtain ⟨earlier, later, horder⟩ := List.append_of_mem (hmerges.mem htaken)
  refine ⟨earlier.flatMap (x.lines cstr localtime), later.flatMap (x.lines cstr localtime), ?_⟩
  rw [hwritten, horder, List.flatMap_append, List.flatMap_cons, List.append_assoc]

theorem endToEnd_of_reachable (h : (program setup E cstr localtime).Reachable x) :
    EndToEnd cstr localtime x := by
  have hstocked := stocked_of_reachable h
  have hrendered := rendered_of_reachable h
  refine ⟨fun p => ⟨hstocked.length_logged p, fun request => hstocked.logged_text⟩,
    hrendered.order, fun t target before hpc r hr => ?_⟩
  have hflush := Handoff.flushSound_of_reachable hstocked.handoff
  have hserved := (hflush.served t target before (by rw [hpc]; rfl)).2 r hr
  have hsecured := hserved.done (hflush.leaving t target before hpc)
  exact hrendered.written hsecured.taken

/-! ### One call -/

def demoSetup : Setup where
  global := { threadBufsize := 256, maxRecordSize := 64, maxProducers := 2 }
  admitted := by constructor <;> decide
  registrations :=
    [.channel { runtimeMode := .threadsafe, pattern := .custom (ascii "%l %v") } 0,
      .customSink { pattern := .custom (ascii "> %v") } 1]
  configuredSinks := 1
  sink_lt := by decide
  diagnostic := true

def demoHello : LogRequest Unit where
  route := 0
  level := .info
  location := ⟨none, 0⟩
  formatting := .text (ascii "hello")
  now := 0

/-- The callback of `produce` writes the record of the call. -/
def demoAct : Waits.SleepyAction Handoff.Action (Option ℕ) → Action demoSetup Unit
  | .act (.produce t _) => .produce t demoPayload demoHello
  | b => .other b

/-- A flush that comes after the call has its two lines. -/
theorem endToEnd_hello :
    ∃ x, (program demoSetup Unit (fun _ => []) fun _ => ⟨0, 0, 0⟩).run
        { shared := { state := .started demoSetup.sealed fun _ => .info } }
        (Handoff.demoServed.dropLast.map demoAct) = some x ∧
      EndToEnd (fun _ => []) (fun _ => ⟨0, 0, 0⟩) x ∧
      x.emission.written = [⟨some 0, ascii "info hello\n"⟩, ⟨some 1, ascii "> hello\n"⟩] := by
  have hrun : ((program demoSetup Unit (fun _ => []) fun _ => ⟨0, 0, 0⟩).run
      { shared := { state := .started demoSetup.sealed fun _ => .info } }
      (Handoff.demoServed.dropLast.map demoAct)).map (fun x => x.emission.written) =
        some [⟨some 0, ascii "info hello\n"⟩, ⟨some 1, ascii "> hello\n"⟩] := by
    decide +kernel
  obtain ⟨x, hx, hwritten⟩ := Option.map_eq_some_iff.mp hrun
  exact ⟨x, hx, endToEnd_of_reachable (.run (.initial ⟨_, rfl⟩) hx), hwritten⟩

end Unlog.Whole
