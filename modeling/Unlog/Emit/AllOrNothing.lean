import Unlog.Emit.LogMessage
import Unlog.Handoff.Drained

/-! # A log call is all or nothing -/

namespace Unlog.Emit

open Pattern Render
open Handoff (State ProducerId Pages Sealed handoff)

section

variable {E : Type} {maxRecordSize : ℕ}

/-! ## The record of a call -/

/-- What a slot of this size shows of a text that is not dropped. -/
def shown (maxRecordSize : ℕ) (formatted : Text) : Text :=
  if formatted.length ≤ payloadCapacity maxRecordSize then formatted
  else marked (payloadCapacity maxRecordSize) formatted

/-- The slot holds the record of this call. -/
structure Describes (policy : ChannelPolicy) (request : LogRequest E) (formatted : Text)
    (slot : BasicRecordSlot maxRecordSize) : Prop where
  header : slot.header = captureHeader policy
    { route := request.route
      level := request.level
      now := request.now
      location := request.location
      message := slot.message
      truncated := slot.header.truncated }
  message : payloadCapacity maxRecordSize < 2 ^ 32 → slot.message = shown maxRecordSize formatted
  truncated : slot.header.truncated = true ↔ payloadCapacity maxRecordSize < formatted.length

/-- For every capacity: the message is read back through the 32 bits of `payload_size`. -/
structure Holds (policy : ChannelPolicy) (request : LogRequest E) (formatted : Text)
    (slot : BasicRecordSlot maxRecordSize) : Prop extends
    Describes policy request formatted slot where
  readBack : slot.message =
    (shown maxRecordSize formatted).take ((shown maxRecordSize formatted).length % 2 ^ 32)

/-- What the callback can leave. -/
inductive Produced (policy : ChannelPolicy) (request : LogRequest E) :
    ProducedRecord E maxRecordSize → Prop
  | published {slot : BasicRecordSlot maxRecordSize} {formatted : Text} :
      request.formatting = .text formatted → Holds policy request formatted slot →
      Produced policy request
        ⟨{ publish := true, truncated := slot.header.truncated }, slot, [.constructAt]⟩
  | dropped {slot : BasicRecordSlot maxRecordSize} {formatted : Text} :
      request.formatting = .text formatted →
      Produced policy request ⟨{}, slot, [.constructAt, .destroyAt]⟩
  | threw {slot : BasicRecordSlot maxRecordSize} {part : Text} {error : E} :
      request.formatting = .throws part error →
      Produced policy request ⟨{ error := some error }, slot, [.constructAt, .destroyAt]⟩

theorem overflowPolicy_eq (overflowPolicy : OverflowPolicy) :
    (if decide (overflowPolicy = .drop) = true then OverflowPolicy.drop else .truncate) =
      overflowPolicy := by
  cases overflowPolicy <;> rfl

/-- Reading back a stored text through its 32-bit size. -/
theorem take_payloadSize {bytes text : Text} {n : ℕ} (hlength : text.length = n)
    (h : bytes.take n = text) :
    bytes.take (n % 2 ^ 32) = text.take (text.length % 2 ^ 32) ∧
      (bytes.take (n % 2 ^ 32)).length = n % 2 ^ 32 := by
  have hread : bytes.take (n % 2 ^ 32) = text.take (n % 2 ^ 32) := by
    rw [← h, List.take_take, min_eq_left (Nat.mod_le _ _)]
  refine ⟨hlength ▸ hread, ?_⟩
  rw [hread, List.length_take, hlength, min_eq_left (Nat.mod_le _ _)]

theorem length_shown_le (maxRecordSize : ℕ) (formatted : Text) :
    (shown maxRecordSize formatted).length ≤ payloadCapacity maxRecordSize := by
  unfold shown
  split
  · assumption
  · rw [length_marked (by omega)]

/-- A message that is read back whole is the text or its truncation. -/
theorem Holds.of_readBack {policy : ChannelPolicy} {request : LogRequest E} {formatted : Text}
    {slot : BasicRecordSlot maxRecordSize}
    (hheader : slot.header = captureHeader policy
      { route := request.route
        level := request.level
        now := request.now
        location := request.location
        message := slot.message
        truncated := slot.header.truncated })
    (hreadBack : slot.message =
      (shown maxRecordSize formatted).take ((shown maxRecordSize formatted).length % 2 ^ 32))
    (htruncated : slot.header.truncated = true ↔
      payloadCapacity maxRecordSize < formatted.length) :
    Holds policy request formatted slot where
  header := hheader
  message hcapacity := by
    have hlength := length_shown_le maxRecordSize formatted
    rw [hreadBack, Nat.mod_eq_of_lt (by omega), List.take_length]
  truncated := htruncated
  readBack := hreadBack

/-- A slot that is not dropped holds the record of the call. -/
theorem Wrote.holds {policy : ChannelPolicy} {overflowPolicy : OverflowPolicy}
    {storage : Payload maxRecordSize} {request : LogRequest E} {formatted : Text}
    {slot : BasicRecordSlot maxRecordSize} {result : RecordSlotWriteResult}
    (h : Wrote (payloadCapacity maxRecordSize) overflowPolicy formatted
      (constructSlot policy storage request) slot result) (hkept : result ≠ .dropped) :
    Holds policy request formatted slot := by
  cases h with
  | @written payload hfits hstored _ =>
      have hshown : shown maxRecordSize formatted = formatted := if_pos hfits
      obtain ⟨hread, hlength⟩ := take_payloadSize rfl hstored
      refine .of_readBack ?_ ?_ ?_
      · simp only [captureHeader, BasicRecordSlot.message, hlength]
        rfl
      · rw [hshown]
        exact hread
      · simp [constructSlot, BasicRecordSlot.construct, hfits]
  | dropped => contradiction
  | @truncated payload hlong _ hstored _ =>
      have hshown :
          shown maxRecordSize formatted = marked (payloadCapacity maxRecordSize) formatted :=
        if_neg (by omega)
      obtain ⟨hread, hlength⟩ := take_payloadSize (length_marked hlong.le) hstored
      refine .of_readBack ?_ ?_ ?_
      · simp only [captureHeader, BasicRecordSlot.message, hlength]
        rfl
      · rw [hshown]
        exact hread
      · simp [hlong]

theorem produceRuntimeRecord_produced (policy : ChannelPolicy) (storage : Payload maxRecordSize)
    (request : LogRequest E) :
    ∃ produced,
      produceRuntimeRecord policy storage request (policy.overflowPolicy = .drop) =
        some produced ∧
      Produced policy request produced := by
  unfold produceRuntimeRecord writeRecordSlotUnlimited
  rw [overflowPolicy_eq]
  cases hformatting : request.formatting with
  | throws part error =>
      obtain ⟨payload, hwrite⟩ := writeRecordSlot_throws (constructSlot policy storage request)
        policy.overflowPolicy (constructSlot policy storage request).capacity part error
      simp only [hwrite]
      exact ⟨_, rfl, .threw hformatting⟩
  | text formatted =>
      obtain ⟨slot, result, hwrite, hwrote⟩ :=
        writeRecordSlot_text (E := E) (constructSlot policy storage request)
          policy.overflowPolicy (constructSlot policy storage request).capacity formatted
      simp only [hwrite]
      rw [min_self] at hwrote
      cases result with
      | written =>
          have hholds := hwrote.holds (by simp)
          have hwhole : slot.header.truncated = false := by
            cases hwrote
            rfl
          refine ⟨_, rfl, ?_⟩
          simpa only [hwhole] using Produced.published hformatting hholds
      | truncated =>
          have hholds := hwrote.holds (by simp)
          have hcut : slot.header.truncated = true := by
            cases hwrote
            rfl
          refine ⟨_, rfl, ?_⟩
          simpa only [hcut] using Produced.published hformatting hholds
      | dropped => exact ⟨_, rfl, .dropped hformatting⟩

/-! ## Signals -/

/-- What the consumer is told: the enqueued flags, the ready bits and `wake_seq`. -/
structure SameSignals (s s' : State) : Prop where
  enqueued : ∀ p, (s'.producer p).enqueued = (s.producer p).enqueued
  readyBits : ∀ pages, (s'.registry pages).activeWords = (s.registry pages).activeWords
  wakeSeq : s'.wakeSeq = s.wakeSeq

/-- What `note_work` reads of a producer. -/
def noticeOf (producer : Handoff.Producer) :=
  (producer.enqueued, producer.activeWord, producer.activeBitMask)

/-- Nothing that `note_work` reads has changed. -/
structure SameNotice (s s' : State) : Prop where
  producer : ∀ p, noticeOf (s'.producer p) = noticeOf (s.producer p)
  registry : s'.registry = s.registry
  wakeSeq : s'.wakeSeq = s.wakeSeq

variable {s s' s'' : State} {p : ProducerId}

theorem SameNotice.trans (h : SameNotice s s') (h' : SameNotice s' s'') : SameNotice s s'' where
  producer q := (h'.producer q).trans (h.producer q)
  registry := h'.registry.trans h.registry
  wakeSeq := h'.wakeSeq.trans h.wakeSeq

theorem SameNotice.signals (h : SameNotice s s') : SameSignals s s' where
  enqueued q := congrArg Prod.fst (h.producer q)
  readyBits pages := by rw [h.registry]
  wakeSeq := h.wakeSeq

theorem sameNotice_setProducer {value : Handoff.Producer}
    (h : noticeOf value = noticeOf (s.producer p)) : SameNotice s (s.setProducer p value) where
  producer q := by
    apply State.setProducer_part noticeOf
    rintro rfl
    exact h
  registry := rfl
  wakeSeq := rfl

theorem publishReadyBit_wakeSeq : (s.publishReadyBit p).wakeSeq = s.wakeSeq := by
  obtain ⟨registry, h⟩ := s.publishReadyBit_eq p
  rw [h]

theorem publishReadyBit_registry_congr
    (hword : (s'.producer p).activeWord = (s.producer p).activeWord)
    (hmask : (s'.producer p).activeBitMask = (s.producer p).activeBitMask)
    (hregistry : s'.registry = s.registry) :
    (s'.publishReadyBit p).registry = (s.publishReadyBit p).registry := by
  unfold State.publishReadyBit
  rw [hword, hmask, hregistry]
  cases (s.producer p).activeWord with
  | none => exact hregistry
  | some word =>
      simp only [State.setRegistry]
      rw [hregistry]

/-- `note_work` signals the same from states that look the same to it. -/
theorem SameNotice.noteWork (h : SameNotice s s') (p : ProducerId) (policy : ChannelPolicy) :
    SameSignals (noteWork s p policy) (noteWork s' p policy) := by
  obtain ⟨henqueued, hword, hmask⟩ :
      (s'.producer p).enqueued = (s.producer p).enqueued ∧
      (s'.producer p).activeWord = (s.producer p).activeWord ∧
      (s'.producer p).activeBitMask = (s.producer p).activeBitMask := by
    simpa only [noticeOf, Prod.mk.injEq] using h.producer p
  unfold Emit.noteWork
  rw [henqueued]
  by_cases hflag : (s.producer p).enqueued = true
  · rw [if_pos hflag, if_pos hflag]
    exact h.signals
  rw [if_neg hflag, if_neg hflag]
  refine ⟨fun q => ?_, fun pages => ?_, ?_⟩
  · by_cases hq : q = p
    · subst hq
      split <;> simp
    · have hsame := h.signals.enqueued q
      split <;> simpa [State.setProducer_producer_of_ne _ hq] using hsame
  · split
    · have hsame :
          ((s'.setProducer p { s'.producer p with enqueued := true }).publishReadyBit p).registry =
            ((s.setProducer p { s.producer p with enqueued := true }).publishReadyBit p).registry :=
        publishReadyBit_registry_congr (by simpa using hword) (by simpa using hmask) h.registry
      exact congrArg (fun registry => (registry pages).activeWords) hsame
    · exact h.signals.readyBits pages
  · have hseq := congrArg (· + 1) h.wakeSeq
    split
    · simp only [publishReadyBit_wakeSeq]
      exact hseq
    · exact hseq

/-! ## Obtaining the producer -/

/-- The ways in which a call obtains its producer. -/
inductive Obtains (conf : Sealed) (s : State) (t : ℕ) (policy : ChannelPolicy) :
    State → ProducerId → Prop
  | held {index : ℕ} : policy.runtimeMode = .threadsafe →
      s.tls t (policyPages policy) = some index →
      Obtains conf s t policy s (.pooled (policyPages policy) index)
  | recycled {index : ℕ} : policy.runtimeMode = .threadsafe →
      s.tls t (policyPages policy) = none →
      (s.registry (policyPages policy)).freeHead ≠ conf.maxProducers →
      (s.registry (policyPages policy)).slots (s.registry (policyPages policy)).freeHead =
        some index →
      Obtains conf s t policy
        (((s.setRegistry (policyPages policy) { s.registry (policyPages policy) with
            freeHead :=
              (s.producer (.pooled (policyPages policy) index)).nextFreeIndex }).setProducer
          (.pooled (policyPages policy) index)
          ((s.producer (.pooled (policyPages policy) index)).reactivate conf)).setTls t
            (policyPages policy) (some index))
        (.pooled (policyPages policy) index)
  | made {index : ℕ} : policy.runtimeMode = .threadsafe →
      s.tls t (policyPages policy) = none →
      (s.registry (policyPages policy)).freeHead = conf.maxProducers →
      index = (s.registry (policyPages policy)).size → index < conf.maxProducers →
      Obtains conf s t policy
        (((s.setRegistry (policyPages policy) { s.registry (policyPages policy) with
            size := index + 1
            slots := Function.update (s.registry (policyPages policy)).slots index (some index)
            count := index + 1 }).setProducer
          (.pooled (policyPages policy) index)
          ((s.producer (.pooled (policyPages policy) index)).bindActiveWord (policyPages policy)
            index)).setTls t (policyPages policy) (some index))
        (.pooled (policyPages policy) index)
  | owned : policy.runtimeMode = .singleThreaded →
      (conf.diagnostic = true → (s.producer (.single (policyPages policy))).owner = some t) →
      Obtains conf s t policy s (.single (policyPages policy))
  | claimed : policy.runtimeMode = .singleThreaded → conf.diagnostic = true →
      (s.producer (.single (policyPages policy))).owner = none →
      Obtains conf s t policy
        (s.setProducer (.single (policyPages policy))
          { s.producer (.single (policyPages policy)) with owner := some t })
        (.single (policyPages policy))

/-- The producer that `threadsafe_producer` takes from the free list. -/
def reactivated (conf : Sealed) (s : State) (t : ℕ) (policy : ChannelPolicy) :
    Option ProducerId :=
  let pages := policyPages policy
  if policy.runtimeMode = .threadsafe ∧ s.tls t pages = none ∧
      (s.registry pages).freeHead ≠ conf.maxProducers then
    ((s.registry pages).slots (s.registry pages).freeHead).map (.pooled pages)
  else none

/-- The enqueued flags once `reactivate` has cleared that producer's. -/
def clearedFlag (conf : Sealed) (s : State) (t : ℕ) (policy : ChannelPolicy) (p : ProducerId) :
    Bool :=
  if reactivated conf s t policy = some p then false else (s.producer p).enqueued

/-- Same records, same signals, but for the enqueued flags, which are as given. -/
structure Untouched (flag : ProducerId → Bool) (b b' : Backend maxRecordSize) : Prop where
  slots : b'.slots = b.slots
  queue : ∀ p, (b'.shared.producer p).queue = (b.shared.producer p).queue
  enqueued : ∀ p, (b'.shared.producer p).enqueued = flag p
  readyBits : ∀ pages,
    (b'.shared.registry pages).activeWords = (b.shared.registry pages).activeWords
  wakeSeq : b'.shared.wakeSeq = b.shared.wakeSeq

variable {conf : Sealed} {b : Backend maxRecordSize} {t : ℕ} {policy : ChannelPolicy}
  {allocates : Bool}

/-- A producer of the registry is handed to the thread. -/
theorem untouched_handOver {pages : Pages} {registry : Handoff.Registry}
    {value : Handoff.Producer} {index : Option ℕ} {flag : ProducerId → Bool}
    (hwords : registry.activeWords = (b.shared.registry pages).activeWords)
    (hqueue : value.queue = (b.shared.producer p).queue) (hflag : value.enqueued = flag p)
    (hother : ∀ q, q ≠ p → (b.shared.producer q).enqueued = flag q) :
    Untouched flag b { b with
      shared := ((b.shared.setRegistry pages registry).setProducer p value).setTls t pages
        index } := by
  refine ⟨rfl, fun q => ?_, fun q => ?_, fun pages' => ?_, rfl⟩
  · by_cases hq : q = p
    · subst hq
      simpa using hqueue
    · simp [State.setProducer_producer_of_ne _ hq]
  · by_cases hq : q = p
    · subst hq
      simpa using hflag
    · simpa [State.setProducer_producer_of_ne _ hq] using hother q hq
  · by_cases hp : pages' = pages
    · subst hp
      simpa using hwords
    · simp [State.setRegistry_registry_of_ne _ hp]

theorem threadsafeProducer_obtains (hmode : policy.runtimeMode = .threadsafe)
    (h : threadsafeProducer conf s t (policyPages policy) allocates = some (.ok (s', p))) :
    Obtains conf s t policy s' p := by
  unfold threadsafeProducer at h
  split at h
  · next index htls =>
      obtain ⟨rfl, rfl⟩ : s = s' ∧ _ = p := by simpa using h
      exact .held hmode htls
  next htls =>
  simp only at h
  split at h
  · next hfree =>
      split at h
      · contradiction
      next index hslot =>
      obtain ⟨rfl, rfl⟩ : _ = s' ∧ ProducerId.pooled (policyPages policy) index = p := by
        simpa using h
      exact .recycled hmode htls hfree hslot
  next hnone =>
  split at h
  · simp at h
  next hroom =>
  split at h
  · simp at h
  obtain ⟨rfl, rfl⟩ : _ = s' ∧ _ = p := by simpa using h
  exact .made hmode htls (not_not.mp hnone) rfl (Nat.lt_of_not_le hroom)

theorem obtainProducer_obtains
    (h : obtainProducer conf s t policy allocates = some (.ok (s', p))) :
    Obtains conf s t policy s' p := by
  unfold obtainProducer at h
  split at h
  · next hmode => exact threadsafeProducer_obtains hmode h
  next hmode =>
  simp only [diagnosticAssertThread] at h
  by_cases hdiagnostic : conf.diagnostic = true
  · rw [if_pos hdiagnostic] at h
    cases howner : (s.producer (.single (policyPages policy))).owner with
    | none =>
        obtain ⟨rfl, rfl⟩ : _ = s' ∧ _ = p := by simpa [howner, Except.map] using h
        exact .claimed hmode hdiagnostic howner
    | some owner =>
        by_cases hown : owner = t
        · obtain ⟨rfl, rfl⟩ : s = s' ∧ _ = p := by simpa [howner, hown, Except.map] using h
          exact .owned hmode fun _ => howner.trans (congrArg some hown)
        · simp [howner, hown, Except.map] at h
  · rw [if_neg hdiagnostic] at h
    obtain ⟨rfl, rfl⟩ : s = s' ∧ _ = p := by simpa [Except.map] using h
    exact .owned hmode fun hd => absurd hd hdiagnostic

/-- Obtaining touches no record and no signal; only `reactivate` clears a flag. -/
theorem Obtains.untouched (h : Obtains conf b.shared t policy s p) :
    Untouched (clearedFlag conf b.shared t policy) b { b with shared := s } := by
  cases h with
  | held _ htls =>
      have hkept : reactivated conf b.shared t policy = none := by simp [reactivated, htls]
      exact ⟨rfl, fun _ => rfl, fun q => by simp [clearedFlag, hkept], fun _ => rfl, rfl⟩
  | @recycled index hmode htls hfree hslot =>
      have htaken : reactivated conf b.shared t policy =
          some (.pooled (policyPages policy) index) := by
        simp [reactivated, hmode, htls, hfree, hslot]
      apply untouched_handOver
      · rfl
      · rfl
      · simp [clearedFlag, htaken, Handoff.Producer.reactivate]
      · intro q hq
        have hne : some (ProducerId.pooled (policyPages policy) index) ≠ some q := by
          simpa using Ne.symm hq
        rw [clearedFlag, htaken, if_neg hne]
  | made _ _ hnone _ _ =>
      have hkept : reactivated conf b.shared t policy = none := by simp [reactivated, hnone]
      apply untouched_handOver
      · rfl
      · rfl
      · simp [clearedFlag, hkept, Handoff.Producer.bindActiveWord]
      · intro q _
        simp [clearedFlag, hkept]
  | owned hmode _ =>
      have hkept : reactivated conf b.shared t policy = none := by simp [reactivated, hmode]
      exact ⟨rfl, fun _ => rfl, fun q => by simp [clearedFlag, hkept], fun _ => rfl, rfl⟩
  | claimed hmode _ _ =>
      have hkept : reactivated conf b.shared t policy = none := by simp [reactivated, hmode]
      have hsame : SameNotice b.shared (b.shared.setProducer (.single (policyPages policy))
          { b.shared.producer (.single (policyPages policy)) with owner := some t }) :=
        sameNotice_setProducer rfl
      refine ⟨rfl, fun q => ?_, fun q => ?_, fun _ => rfl, rfl⟩
      · apply State.setProducer_part Handoff.Producer.queue
        rintro rfl
        rfl
      · rw [clearedFlag, hkept, if_neg (by simp)]
        exact hsame.signals.enqueued q

/-! ## The contract -/

/-- The call got as far as running its formatters. -/
def FormatterRuns (conf : Sealed) (b : Backend maxRecordSize) (t : ℕ) (policy : ChannelPolicy)
    (allocates : Bool) : Prop :=
  ∃ s p, obtainProducer conf b.shared t policy allocates = some (.ok (s, p)) ∧
    (s.producer p).queue.tail - (s.producer p).queue.head < conf.capacity p.pages

/-- One record of this call at the tail of the producer it obtained, then `note_work`. -/
structure Appended (policy : ChannelPolicy) (request : LogRequest E)
    (b b' : Backend maxRecordSize) (s : State) (p : ProducerId) (formatted : Text)
    (slot : BasicRecordSlot maxRecordSize) : Prop where
  formatting : request.formatting = .text formatted
  describes : Describes policy request formatted slot
  slots : b'.slots = Function.update b.slots p (b.slots p ++ [slot])
  queue : (b'.shared.producer p).queue =
    { (b.shared.producer p).queue with
      published := (b.shared.producer p).queue.published ++
        [⟨request.route, slot.header.truncated⟩] }
  others : ∀ q, q ≠ p → (b'.shared.producer q).queue = (b.shared.producer q).queue
  signals : SameSignals (noteWork s p policy) b'.shared

/-- All or nothing, where `flag` gives the enqueued flags of a call that only obtained its
producer. -/
structure LogContract (conf : Sealed) (flag : ProducerId → Bool) (b : Backend maxRecordSize)
    (t : ℕ) (policy : ChannelPolicy) (allocates : Bool) (request : LogRequest E)
    (ret : LogReturn E maxRecordSize) : Prop where
  effect :
    (ret.result = .ok () ∧ ret.lifetime = [.constructAt] ∧ ∃ s p formatted slot,
      obtainProducer conf b.shared t policy allocates = some (.ok (s, p)) ∧
      Untouched flag b { b with shared := s } ∧
      Appended policy request b ret.backend s p formatted slot) ∨
    (Untouched flag b ret.backend ∧
      (ret.lifetime = [] ∨ ret.lifetime = [.constructAt, .destroyAt]))
  throwsProducer : ∀ error, ret.result = .error (.producer error) ↔
    obtainProducer conf b.shared t policy allocates = some (.error error)
  throwsFormatting : ∀ error, ret.result = .error (.formatting error) ↔
    FormatterRuns conf b t policy allocates ∧ ∃ part, request.formatting = .throws part error

/-- The counters are read by `stats` only. -/
theorem countDropped_sameNotice (conf : Sealed) (s : State) (p : ProducerId) :
    SameNotice s (countDropped conf s p) := by
  unfold countDropped
  split
  · exact sameNotice_setProducer rfl
  · exact ⟨fun _ => rfl, rfl, rfl⟩

theorem countPublished_sameNotice (conf : Sealed) (s : State) (p : ProducerId)
    (truncated : Bool) : SameNotice s (countPublished conf s p truncated) := by
  unfold countPublished
  split
  · split
    · apply SameNotice.trans (sameNotice_setProducer _) (sameNotice_setProducer _)
      · rfl
      · rfl
    · exact sameNotice_setProducer rfl
  · exact ⟨fun _ => rfl, rfl, rfl⟩

theorem countDropped_queue (conf : Sealed) (s : State) (p q : ProducerId) :
    ((countDropped conf s p).producer q).queue = (s.producer q).queue := by
  unfold countDropped
  split
  · apply State.setProducer_part Handoff.Producer.queue
    rintro rfl
    rfl
  · rfl

theorem countPublished_queue (conf : Sealed) (s : State) (p q : ProducerId) (truncated : Bool) :
    ((countPublished conf s p truncated).producer q).queue = (s.producer q).queue := by
  have hcount : ∀ (s : State) (value : Handoff.Producer), value.queue = (s.producer p).queue →
      ((s.setProducer p value).producer q).queue = (s.producer q).queue := by
    intro s value h
    apply State.setProducer_part Handoff.Producer.queue
    rintro rfl
    exact h
  unfold countPublished
  split
  · split
    · apply Eq.trans (hcount _ _ _) (hcount _ _ _)
      · rfl
      · rfl
    · exact hcount _ _ rfl
  · rfl

theorem noteWork_queue (s : State) (p q : ProducerId) (policy : ChannelPolicy) :
    ((noteWork s p policy).producer q).queue = (s.producer q).queue := by
  have hmark : ((s.setProducer p { s.producer p with enqueued := true }).producer q).queue =
      (s.producer q).queue := by
    apply State.setProducer_part Handoff.Producer.queue
    rintro rfl
    rfl
  unfold noteWork
  split
  · rfl
  · split
    · simpa only [State.publishReadyBit_producer] using hmark
    · exact hmark

/-- A call that publishes nothing leaves what it found when it had its producer. -/
theorem Untouched.same {flag : ProducerId → Bool} {b' : Backend maxRecordSize}
    (h : Untouched flag b { b with shared := s }) (hslots : b'.slots = b.slots)
    (hqueue : ∀ q, (b'.shared.producer q).queue = (s.producer q).queue)
    (hsignals : SameSignals s b'.shared) : Untouched flag b b' where
  slots := hslots
  queue q := (hqueue q).trans (h.queue q)
  enqueued q := (hsignals.enqueued q).trans (h.enqueued q)
  readyBits pages := (hsignals.readyBits pages).trans (h.readyBits pages)
  wakeSeq := hsignals.wakeSeq.trans h.wakeSeq

/-- What a published record changes. -/
theorem appended_publish {request : LogRequest E} {formatted : Text}
    {slot : BasicRecordSlot maxRecordSize} {flag : ProducerId → Bool}
    (hobtained : Untouched flag b { b with shared := s })
    (hformatting : request.formatting = .text formatted)
    (hdescribes : Describes policy request formatted slot) (truncated : Bool) :
    Appended policy request b
      { Backend.publish ⟨s, b.slots⟩ p request.route slot with
        shared := noteWork
          (countPublished conf (Backend.publish ⟨s, b.slots⟩ p request.route slot).shared p
            truncated) p policy }
      s p formatted slot := by
  have hpublish : SameNotice s (Backend.publish ⟨s, b.slots⟩ p request.route slot).shared :=
    sameNotice_setProducer rfl
  have hcount := countPublished_sameNotice conf
    (Backend.publish ⟨s, b.slots⟩ p request.route slot).shared p truncated
  refine ⟨hformatting, hdescribes, rfl, ?_, fun q hq => ?_,
    (hpublish.trans hcount).noteWork p policy⟩
  · rw [noteWork_queue, countPublished_queue, ← hobtained.queue p]
    simp only [Backend.publish, State.setProducer_producer_self]
  · rw [noteWork_queue, countPublished_queue, ← hobtained.queue q]
    simp only [Backend.publish, State.setProducer_producer_of_ne _ hq]

/-- The entry of `slots` at the head of the free list is set. -/
theorem obtainProducer_isSome (h : (handoff conf).Reachable s) :
    ∃ obtained, obtainProducer conf s t policy allocates = some obtained := by
  unfold obtainProducer
  split
  · have hregistry := (Handoff.ownership_of_reachable h).registry (policyPages policy)
    unfold threadsafeProducer
    split
    · exact ⟨_, rfl⟩
    simp only
    split
    · next hfree =>
        obtain ⟨list, hlist⟩ := hregistry.freeing.freeList
        obtain ⟨rest, rfl, -⟩ := hlist.chain.pop hfree
        have hlt := (hlist.sound _ List.mem_cons_self).1
        rw [hregistry.layout.slots_eq, if_pos hlt]
        exact ⟨_, rfl⟩
    split
    · exact ⟨_, rfl⟩
    split
    · exact ⟨_, rfl⟩
    · exact ⟨_, rfl⟩
  · exact ⟨_, rfl⟩

/-- A call that throws for want of a producer has taken none. -/
theorem clearedFlag_of_error {error : StdException}
    (h : obtainProducer conf s t policy allocates = some (.error error)) :
    clearedFlag conf s t policy = fun p => (s.producer p).enqueued := by
  have hnone : reactivated conf s t policy = none := by
    unfold reactivated
    by_cases htaken : policy.runtimeMode = .threadsafe ∧ s.tls t (policyPages policy) = none ∧
        (s.registry (policyPages policy)).freeHead ≠ conf.maxProducers
    · obtain ⟨hmode, htls, hfree⟩ := htaken
      simp only [obtainProducer, hmode, threadsafeProducer, htls, if_pos hfree] at h
      split at h
      · contradiction
      · simp at h
    · exact if_neg htaken
  funext p
  rw [clearedFlag, hnone, if_neg (by simp)]

/-- A call that obtained its producer throws what its formatters throw. -/
theorem logContract_of_obtained {request : LogRequest E} {ret : LogReturn E maxRecordSize}
    (hobtain : obtainProducer conf b.shared t policy allocates = some (.ok (s, p)))
    (hthrows : ∀ error, ret.result = .error error ↔
      (s.producer p).queue.tail - (s.producer p).queue.head < conf.capacity p.pages ∧
        ∃ part error', error = .formatting error' ∧ request.formatting = .throws part error')
    (heffect :
      (ret.result = .ok () ∧ ret.lifetime = [.constructAt] ∧ ∃ formatted slot,
        Appended policy request b ret.backend s p formatted slot) ∨
      (∀ q, (ret.backend.shared.producer q).queue = (s.producer q).queue) ∧
        ret.backend.slots = b.slots ∧ SameSignals s ret.backend.shared ∧
        (ret.lifetime = [] ∨ ret.lifetime = [.constructAt, .destroyAt])) :
    LogContract conf (clearedFlag conf b.shared t policy) b t policy allocates request ret where
  effect := by
    have huntouched := (obtainProducer_obtains hobtain).untouched
    obtain ⟨hresult, hlifetime, formatted, slot, happended⟩ |
      ⟨hqueue, hslots, hsignals, hlifetime⟩ := heffect
    · exact .inl ⟨hresult, hlifetime, s, p, formatted, slot, hobtain, huntouched, happended⟩
    · exact .inr ⟨huntouched.same hslots hqueue hsignals, hlifetime⟩
  throwsProducer error := by
    rw [hthrows, hobtain]
    simp
  throwsFormatting error := by
    rw [hthrows]
    simp [FormatterRuns, hobtain]

/-- Every call is all or nothing, from any state of the hand-off. -/
theorem logMessage_allOrNothing (h : (handoff conf).Reachable b.shared)
    (storage : Payload maxRecordSize) (request : LogRequest E) :
    ∃ ret, logMessage conf b t policy allocates storage request = some ret ∧
      LogContract conf (clearedFlag conf b.shared t policy) b t policy allocates request ret := by
  obtain ⟨obtained, hobtain⟩ :
      ∃ obtained, obtainProducer conf b.shared t policy allocates = some obtained :=
    obtainProducer_isSome h
  cases obtained with
  | error error =>
      refine ⟨⟨b, .error (.producer error), []⟩, ?_, ?_, fun error' => ?_, fun error' => ?_⟩
      · simp only [logMessage, hobtain]
      · exact .inr ⟨⟨rfl, fun _ => rfl, fun p => (congrFun (clearedFlag_of_error hobtain) p).symm,
          fun _ => rfl, rfl⟩, .inl rfl⟩
      · rw [hobtain]
        simp
      · simp [FormatterRuns, hobtain]
  | ok obtained =>
      obtain ⟨s, p⟩ := obtained
      simp only [logMessage, hobtain, produce]
      by_cases hfull : conf.capacity p.pages ≤
          (s.producer p).queue.tail - (s.producer p).queue.head
      · simp only [if_pos hfull, Option.map_some]
        refine ⟨_, rfl, logContract_of_obtained hobtain (fun error => ?_) ?_⟩
        · simp
          omega
        · exact .inr ⟨countDropped_queue conf s p, rfl,
            (countDropped_sameNotice conf s p).signals, .inl rfl⟩
      have hroom := Nat.lt_of_not_le hfull
      obtain ⟨produced, hproduced, hcase⟩ := produceRuntimeRecord_produced policy storage request
      simp only [if_neg hfull, hproduced, Option.map_some]
      refine ⟨_, rfl, logContract_of_obtained hobtain (fun error => ?_) ?_⟩
      · cases hcase with
        | published hformatting _ => simp [hformatting]
        | dropped hformatting => simp [hformatting]
        | threw hformatting =>
            simp [hformatting, hroom, eq_comm]
      · cases hcase with
        | published hformatting hholds =>
            have huntouched := (obtainProducer_obtains hobtain).untouched
            exact .inl ⟨rfl, rfl, _, _,
              appended_publish huntouched hformatting hholds.toDescribes _⟩
        | dropped hformatting =>
            exact .inr ⟨countDropped_queue conf s p, rfl,
              (countDropped_sameNotice conf s p).signals, .inr rfl⟩
        | threw hformatting =>
            exact .inr ⟨fun _ => rfl, rfl, ⟨fun _ => rfl, fun _ => rfl, rfl⟩, .inr rfl⟩

end

/-! ## A recycled producer -/

def demoPolicy : ChannelPolicy where
  runtimeMode := .threadsafe
  overflowPolicy := .drop
  hugePages := false
  timeRequirements := .none
  captureSourceFile := false
  captureSourceLine := false

/-- A text of 30 characters. -/
def demoRequest : LogRequest Unit where
  route := 0
  level := .info
  location := ⟨none, 0⟩
  formatting := .text (List.replicate 30 'x'.toUInt8)
  now := 0

def demoBackend (s : State) : Backend 64 where
  shared := s
  slots p := (s.producer p).queue.published.map fun record =>
    .construct demoPayload (some record.route) .info 0 none 0

/-- The producer of a thread that has exited is pushed with a record and its flag set. -/
def demoRecycled : List Handoff.Action := Handoff.demoRefilled ++ List.replicate 2 .consumer

/-- A text that fits. -/
def demoShort : LogRequest Unit := { demoRequest with formatting := .text (ascii "hi") }

/-- The call of another thread publishes on the recycled producer. -/
theorem allOrNothing_recycled :
    ∃ s ret, (handoff Handoff.demo).run (.started Handoff.demo fun _ => .info) demoRecycled =
        some s ∧
      reactivated Handoff.demo s 1 demoPolicy = some (.pooled .normal 0) ∧
      logMessage Handoff.demo (demoBackend s) 1 demoPolicy true demoPayload demoShort =
        some ret ∧
      ret.lifetime = [.constructAt] ∧
      LogContract Handoff.demo (clearedFlag Handoff.demo s 1 demoPolicy) (demoBackend s) 1
        demoPolicy true demoShort ret := by
  have hinitial : (handoff Handoff.demo).Reachable (.started Handoff.demo fun _ => .info) :=
    .initial ⟨_, rfl⟩
  have hcall : (((handoff Handoff.demo).run (.started Handoff.demo fun _ => .info)
      demoRecycled).bind fun s =>
        (logMessage Handoff.demo (demoBackend s) 1 demoPolicy true demoPayload demoShort).map
          fun ret => (reactivated Handoff.demo s 1 demoPolicy, ret.lifetime)) =
      some (some (.pooled .normal 0), [.constructAt]) := by
    decide +kernel
  obtain ⟨s, hrun, hmap⟩ := Option.bind_eq_some_iff.mp hcall
  obtain ⟨ret, hret, hfacts⟩ := Option.map_eq_some_iff.mp hmap
  obtain ⟨htaken, hlifetime⟩ := Prod.mk.inj hfacts
  have hreach : (handoff Handoff.demo).Reachable (demoBackend s).shared := hinitial.run hrun
  obtain ⟨ret', hret', hcontract⟩ :
      ∃ ret, logMessage Handoff.demo (demoBackend s) 1 demoPolicy true demoPayload demoShort =
          some ret ∧
        LogContract Handoff.demo (clearedFlag Handoff.demo s 1 demoPolicy) (demoBackend s) 1
          demoPolicy true demoShort ret :=
    logMessage_allOrNothing hreach demoPayload demoShort
  obtain rfl := Option.some.inj (hret.symm.trans hret')
  exact ⟨s, ret, hrun, htaken, hret, hlifetime, hcontract⟩

/-- A call that drops its record has still cleared the flag of the producer it recycled. -/
theorem recycled_flag_cleared :
    ∃ s ret, (handoff Handoff.demo).Reachable s ∧
      logMessage Handoff.demo (demoBackend s) 1 demoPolicy true demoPayload demoRequest =
        some ret ∧
      ¬ LogContract Handoff.demo (fun p => (s.producer p).enqueued) (demoBackend s) 1 demoPolicy
        true demoRequest ret := by
  have hinitial : (handoff Handoff.demo).Reachable (.started Handoff.demo fun _ => .info) :=
    .initial ⟨_, rfl⟩
  have hcall : (((handoff Handoff.demo).run (.started Handoff.demo fun _ => .info)
      demoRecycled).bind fun s =>
        (logMessage Handoff.demo (demoBackend s) 1 demoPolicy true demoPayload demoRequest).map
          fun ret => ((s.producer (.pooled .normal 0)).enqueued,
            (ret.backend.shared.producer (.pooled .normal 0)).enqueued, ret.lifetime)) =
      some (true, false, [.constructAt, .destroyAt]) := by
    decide +kernel
  obtain ⟨s, hrun, hmap⟩ := Option.bind_eq_some_iff.mp hcall
  obtain ⟨ret, hret, hfacts⟩ := Option.map_eq_some_iff.mp hmap
  obtain ⟨hbefore, hafter, hlifetime⟩ :
      (s.producer (.pooled .normal 0)).enqueued = true ∧
      (ret.backend.shared.producer (.pooled .normal 0)).enqueued = false ∧
      ret.lifetime = [.constructAt, .destroyAt] := by
    simpa only [Prod.mk.injEq] using hfacts
  refine ⟨s, ret, hinitial.run hrun, hret, fun hcontract => ?_⟩
  obtain ⟨-, hpublished, -⟩ | ⟨huntouched, -⟩ := hcontract.effect
  · rw [hlifetime] at hpublished
    simp at hpublished
  · have hsame := huntouched.enqueued (.pooled .normal 0)
    rw [hafter, hbefore] at hsame
    exact Bool.false_ne_true hsame

end Unlog.Emit
