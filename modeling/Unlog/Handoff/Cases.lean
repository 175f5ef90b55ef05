import Unlog.Handoff.Step

/-! What a step can do, one case for each effect on shared memory. -/

namespace Unlog.Handoff

section Cases

variable (conf : Sealed) (s : State)

/-- The moves of a thread that write no shared variable. -/
inductive Move (t : ℕ) : ThreadPc → ThreadPc → Prop
  | gate {channel : ℕ} {level : LogLevel} (h : levelEnabled level (s.level channel) = true) :
      Move t (.gate channel level) (.obtain channel)
  | gateClosed {channel : ℕ} {level : LogLevel} : Move t (.gate channel level) .idle
  | obtainTls {channel index : ℕ} {pages : Pages} (h : s.tls t pages = some index)
      (hchannel : channel < conf.channels.length) :
      Move t (.obtain channel) (.produce channel (.pooled pages index))
  | obtainNone {channel : ℕ} {pages : Pages} (h : s.tls t pages = none)
      (hchannel : channel < conf.channels.length) :
      Move t (.obtain channel) (.acquire pages (.log channel))
  | obtainAssert {channel : ℕ} {pages : Pages} (h : conf.diagnostic = true)
      (hsingle : conf.hasSingle pages = true) (hchannel : channel < conf.channels.length) :
      Move t (.obtain channel) (.assertOwner channel pages)
  | obtainSingle {channel : ℕ} {pages : Pages} (h : conf.diagnostic = false)
      (hsingle : conf.hasSingle pages = true) (hchannel : channel < conf.channels.length) :
      Move t (.obtain channel) (.produce channel (.single pages))
  | assertFirst {channel : ℕ} {pages : Pages} :
      Move t (.assertOwner channel pages) (.claimOwner channel pages)
  | assertOwned {channel : ℕ} {pages : Pages} (h : (s.producer (.single pages)).owner = some t) :
      Move t (.assertOwner channel pages) (.produce channel (.single pages))
  | assertThrow {channel : ℕ} {pages : Pages} : Move t (.assertOwner channel pages) .idle
  | claimThrow {channel : ℕ} {pages : Pages} : Move t (.claimOwner channel pages) .idle
  | exhausted {pages : Pages} {purpose : Purpose}
      (h : (s.registry pages).freeHead = conf.maxProducers)
      (hsize : conf.maxProducers ≤ (s.registry pages).size) :
      Move t (.acquire pages purpose) .idle
  | drop {channel : ℕ} {p : ProducerId} : Move t (.produce channel p) (.countDropped p)
  | leave {channel : ℕ} {p : ProducerId} : Move t (.produce channel p) .idle
  | prewarmRunning : Move t .prewarmLifecycle .prewarmState
  | prewarmStopped : Move t .prewarmLifecycle .idle
  | prewarmPresent : Move t .prewarmState (.prewarmThread .normal)
  | prewarmAbsent : Move t .prewarmState .idle
  | prewarmHuge : Move t (.prewarmThread .normal) (.prewarmThread .huge)
  | prewarmDone : Move t (.prewarmThread .huge) .idle
  | prewarmAcquire {pages : Pages} (h : s.tls t pages = none) :
      Move t (.prewarmThread pages) (.acquire pages .prewarm)
  | flushPresent {before : List RecordId} : Move t (.flushState before) (.flushAdmit before)
  | flushAbsent {before : List RecordId} : Move t (.flushState before) .idle
  | flushRunning {before : List RecordId} (h : s.lifecycle = .running) :
      Move t (.flushLifecycle before) (.flushRequest before)
  | flushStopped {before : List RecordId} : Move t (.flushLifecycle before) .flushRefuse
  | flushWait {target : ℕ} {before : List RecordId} (h : target ≤ s.flushCompleted) :
      Move t (.flushWait target before) (.flushLeave target before)
  | levelIgnored {channel : ℕ} {level : LogLevel} : Move t (.setRouteLevel channel level) .idle
  | globalIgnored {level : LogLevel} : Move t (.setGlobalLevel level) .idle
  | destroyAgain {final : RuntimeLifecycle} (h : s.lifecycle = .shuttingDown) :
      Move t (.destroy final) .idle
  | awaitFlushers {final : RuntimeLifecycle} (h : s.activeFlushers = 0) :
      Move t (.awaitFlushers final) (.requestStop final)
  | join {final : RuntimeLifecycle} (h : s.consumer = .ended) : Move t (.join final) (.joined final)

/-- A step of thread `t`, by its effect. -/
inductive ThreadStep (t : ℕ) : State → Prop
  | call (call : Call) (h : s.pc t = .idle) : ThreadStep t (s.setPc t (call.entry s t))
  | move {next : ThreadPc} (h : Move conf s t (s.pc t) next) : ThreadStep t (s.setPc t next)
  | claimOwner {channel : ℕ} {pages : Pages} (h : s.pc t = .claimOwner channel pages)
      (howner : (s.producer (.single pages)).owner = none) :
      ThreadStep t ((s.setProducer (.single pages)
        { s.producer (.single pages) with owner := some t }).setPc t
          (.produce channel (.single pages)))
  | recycle {pages : Pages} {purpose : Purpose} {index : ℕ} (h : s.pc t = .acquire pages purpose)
      (hhead : (s.registry pages).freeHead ≠ conf.maxProducers)
      (hslot : (s.registry pages).slots (s.registry pages).freeHead = some index) :
      ThreadStep t ((((s.setRegistry pages { s.registry pages with
        freeHead := (s.producer (.pooled pages index)).nextFreeIndex }).setProducer
          (.pooled pages index) ((s.producer (.pooled pages index)).reactivate conf)).setTls t
            pages (some index)).setPc t (purpose.next pages index))
  | create {pages : Pages} {purpose : Purpose} (h : s.pc t = .acquire pages purpose)
      (hhead : (s.registry pages).freeHead = conf.maxProducers)
      (hsize : (s.registry pages).size < conf.maxProducers) :
      ThreadStep t ((((s.setRegistry pages { s.registry pages with
        size := (s.registry pages).size + 1
        slots := Function.update (s.registry pages).slots (s.registry pages).size
          (some (s.registry pages).size)
        count := (s.registry pages).size + 1 }).setProducer
          (.pooled pages (s.registry pages).size)
          ((s.producer (.pooled pages (s.registry pages).size)).bindActiveWord pages
            (s.registry pages).size)).setTls t pages (some (s.registry pages).size)).setPc t
              (purpose.next pages (s.registry pages).size))
  | publish {channel : ℕ} {p : ProducerId} (truncated : Bool) (h : s.pc t = .produce channel p) :
      ThreadStep t ((s.setProducer p { s.producer p with
        queue := { (s.producer p).queue with
          published := (s.producer p).queue.published ++ [⟨channel, truncated⟩] } }).setPc t
            (afterPublish conf ⟨p, (s.producer p).queue.tail⟩ truncated))
  | countDropped {p : ProducerId} (h : s.pc t = .countDropped p) :
      ThreadStep t ((s.setProducer p
        { s.producer p with dropped := (s.producer p).dropped + 1 }).setPc t .idle)
  | countEmitted {record : RecordId} {truncated : Bool}
      (h : s.pc t = .countEmitted record truncated) :
      ThreadStep t ((s.setProducer record.producer { s.producer record.producer with
        emitted := (s.producer record.producer).emitted + 1 }).setPc t
          (if truncated then .countTruncated record else .markEnqueued record))
  | countTruncated {record : RecordId} (h : s.pc t = .countTruncated record) :
      ThreadStep t ((s.setProducer record.producer { s.producer record.producer with
        truncated := (s.producer record.producer).truncated + 1 }).setPc t (.markEnqueued record))
  | markWon {record : RecordId} (h : s.pc t = .markEnqueued record)
      (hflag : (s.producer record.producer).enqueued = false) :
      ThreadStep t ((s.setProducer record.producer
        { s.producer record.producer with enqueued := true }).setPc t (afterMark record))
  | markLost {record : RecordId} (h : s.pc t = .markEnqueued record)
      (hflag : (s.producer record.producer).enqueued = true) : ThreadStep t (s.finishLog t record)
  | publishBit {record : RecordId} (h : s.pc t = .publishBit record) :
      ThreadStep t ((s.publishReadyBit record.producer).setPc t (.wake (.note record)))
  | wake {waker : Waker} (h : s.pc t = .wake waker) : ThreadStep t (wakeStep s t waker)
  | retire {pages : Pages} {index : ℕ} (h : s.pc t = .retire pages index)
      (hactive : (s.producer (.pooled pages index)).lifecycle = .active) :
      ThreadStep t (((s.setProducer (.pooled pages index)
        { s.producer (.pooled pages index) with lifecycle := .retired }).setTls t pages
          none).setPc t (.publishRetired pages index))
  | retireLost {pages : Pages} {index : ℕ} (h : s.pc t = .retire pages index)
      (hactive : (s.producer (.pooled pages index)).lifecycle ≠ .active) :
      ThreadStep t ((s.setTls t pages none).setPc t .idle)
  | publishRetired {pages : Pages} {index : ℕ} (h : s.pc t = .publishRetired pages index) :
      ThreadStep t ((s.publishReadyBit (.pooled pages index)).setPc t (.wake .retire))
  | flushAdmit {before : List RecordId} (h : s.pc t = .flushAdmit before) :
      ThreadStep t ({ s with activeFlushers := s.activeFlushers + 1 }.setPc t
        (.flushLifecycle before))
  | flushLeft (h : s.pc t = .flushRefuse ∨ ∃ target before, s.pc t = .flushLeave target before) :
      ThreadStep t ({ s with activeFlushers := s.activeFlushers - 1 }.setPc t .idle)
  | flushRequest {before : List RecordId} (h : s.pc t = .flushRequest before) :
      ThreadStep t ({ s with flushRequested := s.flushRequested + 1 }.setPc t
        (.wake (.flush (s.flushRequested + 1) before)))
  | setLevel (level : ℕ → LogLevel)
      (h : (∃ channel value, s.pc t = .setRouteLevel channel value) ∨
        ∃ value, s.pc t = .setGlobalLevel value)
      (hrunning : s.lifecycle = .running) : ThreadStep t ({ s with level := level }.setPc t .idle)
  | destroy {final : RuntimeLifecycle} (h : s.pc t = .destroy final)
      (hrunning : s.lifecycle = .running) :
      ThreadStep t ({ s with
        lifecycle := .shuttingDown
        level := fun _ => .off
        accepted := s.returned }.setPc t (.awaitFlushers final))
  | requestStop {final : RuntimeLifecycle} (h : s.pc t = .requestStop final) :
      ThreadStep t ({ s with stopRequested := true }.setPc t (.wake (.stop final)))
  | joined {final : RuntimeLifecycle} (h : s.pc t = .joined final) :
      ThreadStep t ({ s with consumerStarted := false, stopRequested := false }.setPc t
        (.resetSinks final))
  | resetSinks {final : RuntimeLifecycle} (h : s.pc t = .resetSinks final) :
      ThreadStep t ({ s with sinksReset := true }.setPc t (.finishDestroy final))
  | finishDestroy {final : RuntimeLifecycle} (present : Bool) (h : s.pc t = .finishDestroy final) :
      ThreadStep t ({ s with lifecycle := final, present := present }.setPc t .idle)

/-- A step of the consumer, by its effect. -/
inductive ConsumerStep : State → Prop
  | sampleTicket (h : s.consumer = .sampleTicket) :
      ConsumerStep { s with consumer := .pass (.ready s.wakeSeq true) Cursor.first }
  | singleVisit {round : Round} {pages : Pages} (h : s.consumer = .pass round (.single pages))
      (hsingle : conf.hasSingle pages = true) :
      ConsumerStep { s with
        consumer := .visit round (Cursor.afterSingle pages) (.single pages) .readTail }
  | singleSkip {round : Round} {pages : Pages} (h : s.consumer = .pass round (.single pages))
      (hsingle : conf.hasSingle pages = false) :
      ConsumerStep { s with consumer := .pass round (Cursor.afterSingle pages) }
  | countFlush {requested : ℕ} {pages : Pages}
      (h : s.consumer = .pass (.flush requested) (.count pages)) :
      ConsumerStep { s with
        consumer := .pass (.flush requested) (.slot pages (s.registry pages).count 0) }
  | countWords {round : Round} {pages : Pages} (h : s.consumer = .pass round (.count pages))
      (hround : ∀ requested, round ≠ .flush requested) :
      ConsumerStep { s with
        consumer := .pass round (.word pages (((s.registry pages).count + 63) / 64) 0) }
  | takeWord {round : Round} {pages : Pages} {words index : ℕ}
      (h : s.consumer = .pass round (.word pages words index)) (hlt : index < words) :
      ConsumerStep { s.setRegistry pages { s.registry pages with
          activeWords := Function.update (s.registry pages).activeWords index 0 } with
        consumer := .pass round (.bits pages words index ((s.registry pages).activeWords index)) }
  | wordsDone {round : Round} {pages : Pages} {words index : ℕ}
      (h : s.consumer = .pass round (.word pages words index)) (hlt : words ≤ index) :
      ConsumerStep { s with consumer := .pass round (Cursor.afterRegistry pages) }
  | bitsDone {round : Round} {pages : Pages} {words index : ℕ} {pending : BitVec 64}
      (h : s.consumer = .pass round (.bits pages words index pending)) (hzero : pending = 0) :
      ConsumerStep { s with consumer := .pass round (.word pages words (index + 1)) }
  | bitVisit {round : Round} {pages : Pages} {words index slot : ℕ} {pending : BitVec 64}
      (h : s.consumer = .pass round (.bits pages words index pending)) (hzero : pending ≠ 0)
      (hslot : (s.registry pages).slots (index * 64 + pending.ctz.toNat) = some slot) :
      ConsumerStep { s with
        consumer := .visit round (.bits pages words index (pending &&& (pending - 1)))
          (.pooled pages slot) .readTail }
  | slotVisit {round : Round} {pages : Pages} {count index slot : ℕ}
      (h : s.consumer = .pass round (.slot pages count index)) (hlt : index < count)
      (hslot : (s.registry pages).slots index = some slot) :
      ConsumerStep { s with
        consumer := .visit round (.slot pages count (index + 1)) (.pooled pages slot) .readTail }
  | slotsDone {round : Round} {pages : Pages} {count index : ℕ}
      (h : s.consumer = .pass round (.slot pages count index)) (hlt : count ≤ index) :
      ConsumerStep { s with consumer := .pass round (Cursor.afterRegistry pages) }
  | passDone {round : Round} (h : s.consumer = .pass round .done) :
      ConsumerStep { s with consumer := round.finish }
  | readTail {round : Round} {resume : Cursor} {p : ProducerId}
      (h : s.consumer = .visit round resume p .readTail) :
      ConsumerStep { s with
        consumer := .visit round resume p (.consume (s.producer p).queue.tail) }
  | consume {round : Round} {resume : Cursor} {p : ProducerId} {tail : ℕ} {record : Record}
      (h : s.consumer = .visit round resume p (.consume tail))
      (hlt : (s.producer p).queue.head < tail)
      (hrecord : (s.producer p).queue.published[(s.producer p).queue.head]? = some record) :
      ConsumerStep { s.setProducer p { s.producer p with
          queue := { (s.producer p).queue with head := (s.producer p).queue.head + 1 } } with
        out := s.out ++ emission conf s ⟨p, (s.producer p).queue.head⟩ record.route }
  | consumed {round : Round} {resume : Cursor} {p : ProducerId} {tail : ℕ}
      (h : s.consumer = .visit round resume p (.consume tail))
      (hlt : tail ≤ (s.producer p).queue.head) :
      ConsumerStep { s with consumer := .visit round resume p .firstEmpty }
  | firstEmpty {round : Round} {resume : Cursor} {p : ProducerId}
      (h : s.consumer = .visit round resume p .firstEmpty)
      (hempty : (s.producer p).queue.empty = true) :
      ConsumerStep { s with consumer := .visit round resume p .clearEnqueued }
  | firstFilled {round : Round} {resume : Cursor} {p : ProducerId}
      (h : s.consumer = .visit round resume p .firstEmpty)
      (hempty : (s.producer p).queue.empty = false) :
      ConsumerStep { s with consumer := .visit round resume p .publishReady }
  | repost {round : Round} {resume : Cursor} {p : ProducerId} {stage : Stage}
      (h : s.consumer = .visit round resume p stage)
      (hstage : stage = .publishReady ∨ stage = .publishRemark) :
      ConsumerStep { s.publishReadyBit p with consumer := .pass round.notDrained resume }
  | clearEnqueued {round : Round} {resume : Cursor} {p : ProducerId}
      (h : s.consumer = .visit round resume p .clearEnqueued) :
      ConsumerStep { s.setProducer p { s.producer p with enqueued := false } with
        consumer := .visit round resume p .secondEmpty }
  | secondEmpty {round : Round} {resume : Cursor} {p : ProducerId}
      (h : s.consumer = .visit round resume p .secondEmpty)
      (hempty : (s.producer p).queue.empty = true) :
      ConsumerStep { s with consumer := afterDrained round resume p }
  | secondFilled {round : Round} {resume : Cursor} {p : ProducerId}
      (h : s.consumer = .visit round resume p .secondEmpty)
      (hempty : (s.producer p).queue.empty = false) :
      ConsumerStep { s with consumer := .visit round resume p .remark }
  | remarkWon {round : Round} {resume : Cursor} {p : ProducerId}
      (h : s.consumer = .visit round resume p .remark)
      (hflag : (s.producer p).enqueued = false) :
      ConsumerStep { s.setProducer p { s.producer p with enqueued := true } with
        consumer := .visit round resume p .publishRemark }
  | remarkLost {round : Round} {resume : Cursor} {p : ProducerId}
      (h : s.consumer = .visit round resume p .remark)
      (hflag : (s.producer p).enqueued = true) :
      ConsumerStep { s with consumer := .pass round.notDrained resume }
  | isRetired {round : Round} {resume : Cursor} {p : ProducerId}
      (h : s.consumer = .visit round resume p .isRetired)
      (hretired : (s.producer p).lifecycle = .retired) :
      ConsumerStep { s with consumer := .visit round resume p .markFree }
  | notRetired {round : Round} {resume : Cursor} {p : ProducerId} {stage : Stage}
      (h : s.consumer = .visit round resume p stage)
      (hstage : stage = .isRetired ∨ stage = .markFree)
      (hretired : (s.producer p).lifecycle ≠ .retired) :
      ConsumerStep { s with consumer := .pass round resume }
  | markFree {round : Round} {resume : Cursor} {p : ProducerId}
      (h : s.consumer = .visit round resume p .markFree)
      (hretired : (s.producer p).lifecycle = .retired) :
      ConsumerStep { s.setProducer p { s.producer p with lifecycle := .free } with
        consumer := .visit round resume p .pushFree }
  | pushFree {round : Round} {resume : Cursor} {p : ProducerId}
      (h : s.consumer = .visit round resume p .pushFree) :
      ConsumerStep { (s.setProducer p { s.producer p with
          nextFreeIndex := (s.registry p.pages).freeHead }).setRegistry p.pages
            { s.registry p.pages with freeHead := (s.producer p).producerIndex } with
        consumer := .pass round resume }
  | startFlush {seq : ℕ} {allDrained : Bool} (h : s.consumer = .readRequested seq allDrained)
      (hrequested : s.flushRequested ≠ s.flushCompleted) :
      ConsumerStep { s with consumer := .pass (.flush s.flushRequested) Cursor.first }
  | noFlush {seq : ℕ} {allDrained : Bool} (h : s.consumer = .readRequested seq allDrained)
      (hrequested : s.flushRequested = s.flushCompleted) :
      ConsumerStep { s with consumer := .readStop seq allDrained }
  | flushSinks {requested : ℕ} (h : s.consumer = .flushSinks requested) :
      ConsumerStep { s with
        out := s.out ++ flushEvents conf, consumer := .completeFlush requested }
  | completeFlush {requested : ℕ} (h : s.consumer = .completeFlush requested) :
      ConsumerStep { s with flushCompleted := requested, consumer := .sampleTicket }
  | stop {seq : ℕ} {allDrained : Bool} (h : s.consumer = .readStop seq allDrained)
      (hstop : s.stopRequested = true) :
      ConsumerStep { s with consumer := .pass (.final true) Cursor.first }
  | sleep {seq : ℕ} (h : s.consumer = .readStop seq true) (hstop : s.stopRequested = false) :
      ConsumerStep { s with consumer := .wait seq }
  | again {seq : ℕ} (h : s.consumer = .readStop seq false) (hstop : s.stopRequested = false) :
      ConsumerStep { s with consumer := .sampleTicket }
  | awake {seq : ℕ} (h : s.consumer = .wait seq) (hseq : s.wakeSeq ≠ seq) :
      ConsumerStep { s with consumer := .sampleTicket }
  | finalFlush (h : s.consumer = .finalFlush) :
      ConsumerStep { s with out := s.out ++ flushEvents conf, consumer := .ended }

end Cases

/-! ## The steps have no other effects -/

variable {conf : Sealed} {s s' : State} {t : ℕ}

theorem ThreadStep.of_move {pc next : ThreadPc} (hpc : s.pc t = pc)
    (h : Move conf s t pc next) : ThreadStep conf s t (s.setPc t next) :=
  .move (hpc ▸ h)

theorem ThreadStep.drop {channel : ℕ} {p : ProducerId} (hpc : s.pc t = .produce channel p) :
    ThreadStep conf s t (s.setPc t (afterDrop conf p)) := by
  unfold afterDrop
  split
  · exact .of_move hpc .drop
  · exact .of_move hpc .leave

theorem ThreadStep.prewarmNext {pages : Pages} {index : ℕ} (hpc : s.pc t = .prewarmThread pages) :
    ThreadStep conf s t (s.setPc t (Purpose.prewarm.next pages index)) := by
  cases pages with
  | normal => exact .of_move hpc .prewarmHuge
  | huge => exact .of_move hpc .prewarmDone

/-- A channel in single-threaded mode has its producer. -/
theorem hasSingle_of_channel {channel : ℕ} {pages : Pages} {sink : ℕ}
    (h : conf.channels[channel]? = some ⟨.singleThreaded, pages, sink⟩) :
    conf.hasSingle pages = true :=
  List.any_eq_true.mpr ⟨_, List.mem_of_getElem? h, by simp⟩

theorem acquireStep_cases {pages : Pages} {purpose : Purpose} (hpc : s.pc t = .acquire pages purpose)
    (h : acquireStep conf s t pages purpose = some s') : ThreadStep conf s t s' := by
  simp only [acquireStep] at h
  split at h
  case isTrue hhead =>
    split at h
    case h_1 => contradiction
    case h_2 index hslot =>
      obtain rfl := Option.some.inj h
      exact .recycle hpc hhead hslot
  case isFalse hhead =>
    have hhead := not_not.mp hhead
    split at h
    case isTrue hsize =>
      obtain rfl := Option.some.inj h
      exact .of_move hpc (.exhausted hhead hsize)
    case isFalse hsize =>
      obtain rfl := Option.some.inj h
      exact .create hpc hhead (Nat.lt_of_not_le hsize)

theorem produceStep_cases {channel : ℕ} {p : ProducerId} (hpc : s.pc t = .produce channel p)
    (outcome : Outcome) : ThreadStep conf s t (produceStep conf s t channel p outcome) := by
  unfold produceStep
  dsimp only
  split
  · exact .drop hpc
  · cases outcome with
    | written => exact .publish false hpc
    | truncated => exact .publish true hpc
    | dropped => exact .drop hpc
    | error => exact .of_move hpc .leave

theorem threadStep_cases (h : threadStep conf s t = some s') : ThreadStep conf s t s' := by
  unfold threadStep at h
  cases hpc : s.pc t with
  | idle => simp [hpc] at h
  | gate channel level =>
      simp only [hpc, Option.some.injEq] at h
      subst h
      split
      case isTrue hlevel => exact .of_move hpc (.gate hlevel)
      case isFalse => exact .of_move hpc .gateClosed
  | obtain channel =>
      simp only [hpc] at h
      split at h
      · contradiction
      · rename_i hchannel
        have hlt := (List.getElem?_eq_some_iff.mp hchannel).1
        split at h
        case h_1 index htls =>
          obtain rfl := Option.some.inj h
          exact .of_move hpc (.obtainTls htls hlt)
        case h_2 htls =>
          obtain rfl := Option.some.inj h
          exact .of_move hpc (.obtainNone htls hlt)
      · rename_i hchannel
        have hlt := (List.getElem?_eq_some_iff.mp hchannel).1
        have hsingle := hasSingle_of_channel hchannel
        split at h
        case isTrue hdiag =>
          obtain rfl := Option.some.inj h
          exact .of_move hpc (.obtainAssert hdiag hsingle hlt)
        case isFalse hdiag =>
          obtain rfl := Option.some.inj h
          exact .of_move hpc (.obtainSingle (by simpa using hdiag) hsingle hlt)
  | assertOwner channel pages =>
      simp only [hpc] at h
      split at h
      case h_1 =>
        obtain rfl := Option.some.inj h
        exact .of_move hpc (.assertFirst)
      case h_2 owner howner =>
        obtain rfl := Option.some.inj h
        split
        · exact .of_move hpc (.assertOwned (by simp_all))
        · exact .of_move hpc (.assertThrow)
  | claimOwner channel pages =>
      simp only [hpc] at h
      split at h
      case h_1 howner =>
        obtain rfl := Option.some.inj h
        exact .claimOwner hpc howner
      case h_2 =>
        obtain rfl := Option.some.inj h
        exact .of_move hpc (.claimThrow)
  | acquire pages purpose =>
      simp only [hpc] at h
      exact acquireStep_cases hpc h
  | produce channel p => simp [hpc] at h
  | countDropped p =>
      simp only [hpc, Option.some.injEq] at h
      subst h
      exact .countDropped hpc
  | countEmitted record truncated =>
      simp only [hpc, Option.some.injEq] at h
      subst h
      exact .countEmitted hpc
  | countTruncated record =>
      simp only [hpc, Option.some.injEq] at h
      subst h
      exact .countTruncated hpc
  | markEnqueued record =>
      simp only [hpc] at h
      split at h
      case isTrue hflag =>
        obtain rfl := Option.some.inj h
        exact .markLost hpc hflag
      case isFalse hflag =>
        obtain rfl := Option.some.inj h
        exact .markWon hpc (by simpa using hflag)
  | publishBit record =>
      simp only [hpc, Option.some.injEq] at h
      subst h
      exact .publishBit hpc
  | wake waker =>
      simp only [hpc, Option.some.injEq] at h
      subst h
      exact .wake hpc
  | retire pages index =>
      simp only [hpc] at h
      split at h
      case isTrue hactive =>
        obtain rfl := Option.some.inj h
        exact .retire hpc hactive
      case isFalse hactive =>
        obtain rfl := Option.some.inj h
        exact .retireLost hpc hactive
  | publishRetired pages index =>
      simp only [hpc, Option.some.injEq] at h
      subst h
      exact .publishRetired hpc
  | prewarmLifecycle =>
      simp only [hpc, Option.some.injEq] at h
      subst h
      split
      · exact .of_move hpc .prewarmRunning
      · exact .of_move hpc .prewarmStopped
  | prewarmState =>
      simp only [hpc, Option.some.injEq] at h
      subst h
      split
      · exact .of_move hpc .prewarmPresent
      · exact .of_move hpc .prewarmAbsent
  | prewarmThread pages =>
      simp only [hpc] at h
      split at h
      case h_1 index htls =>
        obtain rfl := Option.some.inj h
        exact .prewarmNext hpc
      case h_2 htls =>
        obtain rfl := Option.some.inj h
        split
        · exact .prewarmNext hpc
        · exact .of_move hpc (.prewarmAcquire htls)
  | flushState before =>
      simp only [hpc, Option.some.injEq] at h
      subst h
      split
      · exact .of_move hpc .flushPresent
      · exact .of_move hpc .flushAbsent
  | flushAdmit before =>
      simp only [hpc, Option.some.injEq] at h
      subst h
      exact .flushAdmit hpc
  | flushLifecycle before =>
      simp only [hpc, Option.some.injEq] at h
      subst h
      split
      case isTrue hrunning => exact .of_move hpc (.flushRunning hrunning)
      case isFalse => exact .of_move hpc (.flushStopped)
  | flushRefuse =>
      simp only [hpc, Option.some.injEq] at h
      subst h
      exact .flushLeft (.inl hpc)
  | flushRequest before =>
      simp only [hpc, Option.some.injEq] at h
      subst h
      exact .flushRequest hpc
  | flushWait target before =>
      simp only [hpc] at h
      split at h
      · contradiction
      · obtain rfl := Option.some.inj h
        exact .of_move hpc (.flushWait (by omega))
  | flushLeave target before =>
      simp only [hpc, Option.some.injEq] at h
      subst h
      exact .flushLeft (.inr ⟨target, before, hpc⟩)
  | setRouteLevel channel level =>
      simp only [hpc] at h
      split at h
      case isTrue hrunning =>
        obtain rfl := Option.some.inj h
        exact .setLevel _ (.inl ⟨channel, level, hpc⟩) hrunning.2
      case isFalse =>
        obtain rfl := Option.some.inj h
        exact .of_move hpc (.levelIgnored)
  | setGlobalLevel level =>
      simp only [hpc] at h
      split at h
      case isTrue hrunning =>
        obtain rfl := Option.some.inj h
        exact .setLevel _ (.inr ⟨level, hpc⟩) hrunning.2
      case isFalse =>
        obtain rfl := Option.some.inj h
        exact .of_move hpc (.globalIgnored)
  | destroy final =>
      simp only [hpc] at h
      split at h
      case isTrue hshutting =>
        obtain rfl := Option.some.inj h
        exact .of_move hpc (.destroyAgain hshutting)
      case isFalse =>
        split at h
        · contradiction
        · obtain rfl := Option.some.inj h
          exact .destroy hpc (by simp_all)
  | awaitFlushers final =>
      simp only [hpc] at h
      split at h
      case isTrue hzero =>
        obtain rfl := Option.some.inj h
        exact .of_move hpc (.awaitFlushers hzero)
      case isFalse => contradiction
  | requestStop final =>
      simp only [hpc, Option.some.injEq] at h
      subst h
      exact .requestStop hpc
  | join final =>
      simp only [hpc] at h
      split at h
      case isTrue hended =>
        obtain rfl := Option.some.inj h
        exact .of_move hpc (.join hended)
      case isFalse => contradiction
  | joined final =>
      simp only [hpc, Option.some.injEq] at h
      subst h
      exact .joined hpc
  | resetSinks final =>
      simp only [hpc, Option.some.injEq] at h
      subst h
      exact .resetSinks hpc
  | finishDestroy final =>
      simp only [hpc, Option.some.injEq] at h
      subst h
      exact .finishDestroy _ hpc

theorem passStep_cases {round : Round} {cursor : Cursor} (hc : s.consumer = .pass round cursor)
    (h : passStep conf s round cursor = some s') : ConsumerStep conf s s' := by
  cases cursor with
  | single pages =>
      simp only [passStep] at h
      split at h
      case isTrue hsingle =>
        obtain rfl := Option.some.inj h
        exact .singleVisit hc hsingle
      case isFalse hsingle =>
        obtain rfl := Option.some.inj h
        exact .singleSkip hc (by simpa using hsingle)
  | count pages =>
      simp only [passStep] at h
      split at h
      case h_1 =>
        obtain rfl := Option.some.inj h
        exact .countFlush hc
      case h_2 hround =>
        obtain rfl := Option.some.inj h
        exact .countWords hc hround
  | word pages words index =>
      simp only [passStep] at h
      split at h
      case isTrue hlt =>
        obtain rfl := Option.some.inj h
        exact .takeWord hc hlt
      case isFalse hlt =>
        obtain rfl := Option.some.inj h
        exact .wordsDone hc (Nat.le_of_not_lt hlt)
  | bits pages words index pending =>
      simp only [passStep] at h
      split at h
      case isTrue hzero =>
        obtain rfl := Option.some.inj h
        exact .bitsDone hc hzero
      case isFalse hzero =>
        split at h
        case h_1 => contradiction
        case h_2 slot hslot =>
          obtain rfl := Option.some.inj h
          exact .bitVisit hc hzero hslot
  | slot pages count index =>
      simp only [passStep] at h
      split at h
      case isTrue hlt =>
        split at h
        case h_1 => contradiction
        case h_2 slot hslot =>
          obtain rfl := Option.some.inj h
          exact .slotVisit hc hlt hslot
      case isFalse hlt =>
        obtain rfl := Option.some.inj h
        exact .slotsDone hc (Nat.le_of_not_lt hlt)
  | done =>
      simp only [passStep, Option.some.injEq] at h
      subst h
      exact .passDone hc

theorem visitStep_cases {round : Round} {resume : Cursor} {p : ProducerId} {stage : Stage}
    (hc : s.consumer = .visit round resume p stage)
    (h : visitStep conf s round resume p stage = some s') : ConsumerStep conf s s' := by
  cases stage with
  | readTail =>
      simp only [visitStep, Option.some.injEq] at h
      subst h
      exact .readTail hc
  | consume tail =>
      simp only [visitStep] at h
      split at h
      case isTrue hlt =>
        split at h
        case h_1 => contradiction
        case h_2 record hrecord =>
          obtain rfl := Option.some.inj h
          exact .consume hc hlt hrecord
      case isFalse hlt =>
        obtain rfl := Option.some.inj h
        exact .consumed hc (Nat.le_of_not_lt hlt)
  | firstEmpty =>
      simp only [visitStep, Option.some.injEq] at h
      subst h
      split
      case isTrue hempty => exact .firstEmpty hc hempty
      case isFalse hempty => exact .firstFilled hc (by simpa using hempty)
  | publishReady =>
      simp only [visitStep, Option.some.injEq] at h
      subst h
      exact .repost hc (.inl rfl)
  | clearEnqueued =>
      simp only [visitStep, Option.some.injEq] at h
      subst h
      exact .clearEnqueued hc
  | secondEmpty =>
      simp only [visitStep, Option.some.injEq] at h
      subst h
      split
      case isTrue hempty => exact .secondEmpty hc hempty
      case isFalse hempty => exact .secondFilled hc (by simpa using hempty)
  | remark =>
      simp only [visitStep] at h
      split at h
      case isTrue hflag =>
        obtain rfl := Option.some.inj h
        exact .remarkLost hc hflag
      case isFalse hflag =>
        obtain rfl := Option.some.inj h
        exact .remarkWon hc (by simpa using hflag)
  | publishRemark =>
      simp only [visitStep, Option.some.injEq] at h
      subst h
      exact .repost hc (.inr rfl)
  | isRetired =>
      simp only [visitStep, Option.some.injEq] at h
      subst h
      split
      case isTrue hretired => exact .isRetired hc hretired
      case isFalse hretired => exact .notRetired hc (.inl rfl) hretired
  | markFree =>
      simp only [visitStep] at h
      split at h
      case isTrue hretired =>
        obtain rfl := Option.some.inj h
        exact .markFree hc hretired
      case isFalse hretired =>
        obtain rfl := Option.some.inj h
        exact .notRetired hc (.inr rfl) hretired
  | pushFree =>
      simp only [visitStep, Option.some.injEq] at h
      subst h
      exact .pushFree hc

theorem consumerStep_cases (h : consumerStep conf s = some s') : ConsumerStep conf s s' := by
  unfold consumerStep at h
  split at h
  case h_1 hc =>
    obtain rfl := Option.some.inj h
    exact .sampleTicket hc
  case h_2 round cursor hc => exact passStep_cases hc h
  case h_3 round resume p stage hc => exact visitStep_cases hc h
  case h_4 seq allDrained hc =>
    obtain rfl := Option.some.inj h
    split
    case isTrue hrequested => exact .startFlush hc hrequested
    case isFalse hrequested => exact .noFlush hc (by simpa using hrequested)
  case h_5 requested hc =>
    obtain rfl := Option.some.inj h
    exact .flushSinks hc
  case h_6 requested hc =>
    obtain rfl := Option.some.inj h
    exact .completeFlush hc
  case h_7 seq allDrained hc =>
    obtain rfl := Option.some.inj h
    split
    case isTrue hstop => exact .stop hc hstop
    case isFalse hstop =>
      have hstop : s.stopRequested = false := by simpa using hstop
      cases allDrained with
      | true => exact .sleep hc hstop
      | false => exact .again hc hstop
  case h_8 seq hc =>
    split at h
    · contradiction
    case isFalse hseq =>
      obtain rfl := Option.some.inj h
      exact .awake hc hseq
  case h_9 hc =>
    obtain rfl := Option.some.inj h
    exact .finalFlush hc
  case h_10 => contradiction

/-- Every step is one of the effects above, and only the consumer takes its own. -/
theorem step_cases_consumer {a : Action} (h : step conf s a = some s') :
    (∃ t, ThreadStep conf s t s') ∨ a = .consumer ∧ ConsumerStep conf s s' := by
  cases a with
  | call t call =>
      simp only [step] at h
      split at h
      case isTrue hidle =>
        obtain rfl := Option.some.inj h
        exact .inl ⟨t, .call call hidle⟩
      case isFalse => contradiction
  | produce t outcome =>
      simp only [step] at h
      split at h
      case h_1 channel p hpc =>
        obtain rfl := Option.some.inj h
        exact .inl ⟨t, produceStep_cases hpc outcome⟩
      case h_2 => contradiction
  | thread t => exact .inl ⟨t, threadStep_cases h⟩
  | consumer => exact .inr ⟨rfl, consumerStep_cases h⟩

theorem step_cases {a : Action} (h : step conf s a = some s') :
    (∃ t, ThreadStep conf s t s') ∨ ConsumerStep conf s s' :=
  (step_cases_consumer h).imp_right And.right

/-! ## The control flow of a thread -/

section Next

variable (conf s)

/-- Where a thread comes to with one step. -/
inductive Next (t : ℕ) : ThreadPc → ThreadPc → Prop
  | callLog {channel : ℕ} {level : LogLevel} : Next t .idle (.gate channel level)
  | callUnchecked {channel : ℕ} : Next t .idle (.obtain channel)
  | callRelease {pages : Pages} {index : ℕ} (h : s.tls t pages = some index) :
      Next t .idle (.retire pages index)
  | callNothing : Next t .idle .idle
  | callPrewarm : Next t .idle .prewarmLifecycle
  | callFlush : Next t .idle (.flushState s.returned)
  | callRouteLevel {channel : ℕ} {level : LogLevel} : Next t .idle (.setRouteLevel channel level)
  | callGlobalLevel {level : LogLevel} : Next t .idle (.setGlobalLevel level)
  | callDestroy {final : RuntimeLifecycle} (h : final ≠ .running) : Next t .idle (.destroy final)
  | move {pc next : ThreadPc} (h : Move conf s t pc next) : Next t pc next
  | claimOwner {channel : ℕ} {pages : Pages} :
      Next t (.claimOwner channel pages) (.produce channel (.single pages))
  | acquireLog {channel index : ℕ} {pages : Pages} :
      Next t (.acquire pages (.log channel)) (.produce channel (.pooled pages index))
  | acquireNormal : Next t (.acquire .normal .prewarm) (.prewarmThread .huge)
  | acquireHuge : Next t (.acquire .huge .prewarm) .idle
  | publishCounted {channel : ℕ} {p : ProducerId} {truncated : Bool} :
      Next t (.produce channel p) (.countEmitted ⟨p, (s.producer p).queue.tail⟩ truncated)
  | publish {channel : ℕ} {p : ProducerId} :
      Next t (.produce channel p) (.markEnqueued ⟨p, (s.producer p).queue.tail⟩)
  | countDropped {p : ProducerId} : Next t (.countDropped p) .idle
  | countEmitted {record : RecordId} : Next t (.countEmitted record false) (.markEnqueued record)
  | countEmittedCut {record : RecordId} :
      Next t (.countEmitted record true) (.countTruncated record)
  | countTruncated {record : RecordId} : Next t (.countTruncated record) (.markEnqueued record)
  | markSingle {pages : Pages} {n : ℕ} :
      Next t (.markEnqueued ⟨.single pages, n⟩) (.wake (.note ⟨.single pages, n⟩))
  | markPooled {pages : Pages} {index n : ℕ} :
      Next t (.markEnqueued ⟨.pooled pages index, n⟩) (.publishBit ⟨.pooled pages index, n⟩)
  | markLost {record : RecordId} : Next t (.markEnqueued record) .idle
  | publishBit {record : RecordId} : Next t (.publishBit record) (.wake (.note record))
  | wakeNote {record : RecordId} : Next t (.wake (.note record)) .idle
  | wakeRetire : Next t (.wake .retire) .idle
  | wakeFlush {target : ℕ} {before : List RecordId} :
      Next t (.wake (.flush target before)) (.flushWait target before)
  | wakeStop {final : RuntimeLifecycle} : Next t (.wake (.stop final)) (.join final)
  | retire {pages : Pages} {index : ℕ} : Next t (.retire pages index) (.publishRetired pages index)
  | retireLost {pages : Pages} {index : ℕ} : Next t (.retire pages index) .idle
  | publishRetired {pages : Pages} {index : ℕ} :
      Next t (.publishRetired pages index) (.wake .retire)
  | flushAdmit {before : List RecordId} : Next t (.flushAdmit before) (.flushLifecycle before)
  | flushRefuse : Next t .flushRefuse .idle
  | flushLeave {target : ℕ} {before : List RecordId} : Next t (.flushLeave target before) .idle
  | flushRequest {before : List RecordId} :
      Next t (.flushRequest before) (.wake (.flush (s.flushRequested + 1) before))
  | setRouteLevel {channel : ℕ} {level : LogLevel} : Next t (.setRouteLevel channel level) .idle
  | setGlobalLevel {level : LogLevel} : Next t (.setGlobalLevel level) .idle
  | destroy {final : RuntimeLifecycle} : Next t (.destroy final) (.awaitFlushers final)
  | requestStop {final : RuntimeLifecycle} : Next t (.requestStop final) (.wake (.stop final))
  | joined {final : RuntimeLifecycle} : Next t (.joined final) (.resetSinks final)
  | resetSinks {final : RuntimeLifecycle} : Next t (.resetSinks final) (.finishDestroy final)
  | finishDestroy {final : RuntimeLifecycle} : Next t (.finishDestroy final) .idle

end Next

theorem next_entry (call : Call) : Next conf s t .idle (call.entry s t) := by
  cases call with
  | log => exact .callLog
  | logUnchecked => exact .callUnchecked
  | release pages =>
      simp only [Call.entry]
      split
      case h_1 => exact .callNothing
      case h_2 index htls => exact .callRelease htls
  | prewarm => exact .callPrewarm
  | flush => exact .callFlush
  | setRouteLevel => exact .callRouteLevel
  | setGlobalLevel => exact .callGlobalLevel
  | processExit | reset => exact .callDestroy nofun

theorem next_acquire (pages : Pages) (purpose : Purpose) (index : ℕ) :
    Next conf s t (.acquire pages purpose) (purpose.next pages index) := by
  cases purpose with
  | log => exact .acquireLog
  | prewarm =>
      cases pages with
      | normal => exact .acquireNormal
      | huge => exact .acquireHuge

theorem next_publish (channel : ℕ) (p : ProducerId) (truncated : Bool) :
    Next conf s t (.produce channel p)
      (afterPublish conf ⟨p, (s.producer p).queue.tail⟩ truncated) := by
  unfold afterPublish
  split
  · exact .publishCounted
  · exact .publish

theorem next_mark (record : RecordId) :
    Next conf s t (.markEnqueued record) (afterMark record) := by
  obtain ⟨p, n⟩ := record
  cases p with
  | single => exact .markSingle
  | pooled => exact .markPooled

theorem next_wake (waker : Waker) : Next conf s t (.wake waker) ((wakeStep s t waker).pc t) := by
  cases waker <;> simp only [wakeStep, State.finishLog_pc, State.setPc_pc_self]
  · exact .wakeNote
  · exact .wakeRetire
  · exact .wakeFlush
  · exact .wakeStop

theorem ThreadStep.next (hstep : ThreadStep conf s t s') :
    Next conf s t (s.pc t) (s'.pc t) := by
  cases hstep with
  | call call hpc =>
      rw [State.setPc_pc_self, hpc]
      exact next_entry call
  | move hmove =>
      rw [State.setPc_pc_self]
      exact .move hmove
  | recycle hpc | create hpc =>
      rw [State.setPc_pc_self, hpc]
      exact next_acquire ..
  | publish truncated hpc =>
      rw [State.setPc_pc_self, hpc]
      exact next_publish ..
  | countEmitted hpc =>
      rename_i record truncated
      rw [State.setPc_pc_self, hpc]
      cases truncated with
      | false => exact .countEmitted
      | true => exact .countEmittedCut
  | markWon hpc =>
      rw [State.setPc_pc_self, hpc]
      exact next_mark ..
  | markLost hpc =>
      rw [State.finishLog_pc, State.setPc_pc_self, hpc]
      exact .markLost
  | wake hpc =>
      rw [hpc]
      exact next_wake ..
  | flushLeft hpc =>
      rw [State.setPc_pc_self]
      rcases hpc with hpc | ⟨target, before, hpc⟩ <;> rw [hpc]
      · exact .flushRefuse
      · exact .flushLeave
  | setLevel level hpc =>
      rw [State.setPc_pc_self]
      rcases hpc with ⟨channel, value, hpc⟩ | ⟨value, hpc⟩ <;> rw [hpc]
      · exact .setRouteLevel
      · exact .setGlobalLevel
  | claimOwner hpc =>
      rw [State.setPc_pc_self, hpc]
      exact .claimOwner
  | countDropped hpc =>
      rw [State.setPc_pc_self, hpc]
      exact .countDropped
  | countTruncated hpc =>
      rw [State.setPc_pc_self, hpc]
      exact .countTruncated
  | publishBit hpc =>
      rw [State.setPc_pc_self, hpc]
      exact .publishBit
  | retire hpc =>
      rw [State.setPc_pc_self, hpc]
      exact .retire
  | retireLost hpc =>
      rw [State.setPc_pc_self, hpc]
      exact .retireLost
  | publishRetired hpc =>
      rw [State.setPc_pc_self, hpc]
      exact .publishRetired
  | flushAdmit hpc =>
      rw [State.setPc_pc_self, hpc]
      exact .flushAdmit
  | flushRequest hpc =>
      rw [State.setPc_pc_self, hpc]
      exact .flushRequest
  | destroy hpc =>
      rw [State.setPc_pc_self, hpc]
      exact .destroy
  | requestStop hpc =>
      rw [State.setPc_pc_self, hpc]
      exact .requestStop
  | joined hpc =>
      rw [State.setPc_pc_self, hpc]
      exact .joined
  | resetSinks hpc =>
      rw [State.setPc_pc_self, hpc]
      exact .resetSinks
  | finishDestroy _ hpc =>
      rw [State.setPc_pc_self, hpc]
      exact .finishDestroy

end Unlog.Handoff
