import Unlog.Handoff.Ready

/-! # One walk over the words of a registry

`drain_registry` is watched together with the bits that were set when it read the count, the
bits it has taken, the producers it has drained and the bits that came too late for it. -/

namespace Unlog.Handoff

/-! ## Where a walk stands -/

/-- Where the pass is, or goes on after the visit. -/
def ConsumerPc.cursor : ConsumerPc → Cursor
  | .pass _ cursor => cursor
  | .visit _ resume _ _ => resume
  | _ => .done

/-- The loop of `drain_registry` is under way. -/
def Cursor.scans (pages : Pages) : Cursor → Bool
  | .word pages' _ _ | .bits pages' _ _ _ => pages' == pages
  | _ => false

/-- The word of the index has still to be exchanged. -/
def Cursor.toCome (pages : Pages) (i : ℕ) : Cursor → Bool
  | .word pages' words index => pages' == pages && decide (index ≤ i / 64 ∧ i / 64 < words)
  | .bits pages' words index _ => pages' == pages && decide (index < i / 64 ∧ i / 64 < words)
  | _ => false

/-- `ReadyBit` as it is computed. -/
def State.bit (s : State) (pages : Pages) (i : ℕ) : Bool :=
  ((s.registry pages).activeWords (i / 64)).getLsbD (i % 64)

/-- The step reads the count of the registry. -/
def begins (pages : Pages) : ConsumerPc → ConsumerPc → Bool
  | .pass _ (.count pages'), .pass _ (.word _ _ _) => pages' == pages
  | _, _ => false

/-- The step exchanges the word of the index. -/
def takes (pages : Pages) (i : ℕ) : ConsumerPc → ConsumerPc → Bool
  | .pass _ (.word pages' _ index), .pass _ (.bits _ _ _ _) => pages' == pages && i / 64 == index
  | _, _ => false

/-- The producer that the step begins to drain for a bit. -/
def drains (pages : Pages) : ConsumerPc → ConsumerPc → List ℕ
  | .pass _ (.bits pages' _ _ _), .visit _ _ (.pooled _ slot) _ =>
    if pages' = pages then [slot] else []
  | _, _ => []

/-- The hand-off and the walk over the registry of `pages` that is under way or was the latest. -/
structure Scan where
  state : State
  announced : ℕ → Bool := fun _ => false
  taken : ℕ → Bool := fun _ => false
  drained : List ℕ := []
  late : ℕ → Bool := fun _ => false

/-- The walk after a step to `s'`. -/
def Scan.next (pages : Pages) (w : Scan) (s' : State) : Scan :=
  let first := begins pages w.state.consumer s'.consumer
  { state := s'
    announced i := if first then w.state.bit pages i else w.announced i
    taken i := !first &&
      (w.taken i || takes pages i w.state.consumer s'.consumer && w.state.bit pages i)
    drained := if first then [] else w.drained ++ drains pages w.state.consumer s'.consumer
    late i := !first && w.late i ||
      s'.consumer.cursor.scans pages && !s'.consumer.cursor.toCome pages i && s'.bit pages i }

/-- Any bits of registered producers. -/
def State.withBits (s : State) (bits : Pages → ℕ → BitVec 64) : State :=
  { s with registry := fun pages => { s.registry pages with activeWords := bits pages } }

/-- The hand-off, watched from any reachable state outside a walk, with any ready bits. -/
def scan (conf : Sealed) (pages : Pages) : Library.System Scan Action where
  Initial w := ∃ s bits, (handoff conf).Reachable s ∧ s.consumer.cursor.scans pages = false ∧
    (∀ pages i, ReadyBit (s.withBits bits) pages i → i < (s.registry pages).count) ∧
    w = { state := s.withBits bits }
  step w a := (step conf w.state a).map (w.next pages)

/-- A walk drains the producers whose bits it took, once each and in order, finds a producer for
every bit, loses no bit, and misses none that was set when it began. -/
structure ScanContract (conf : Sealed) (pages : Pages) (w : Scan) : Prop where
  increasing : w.drained.Pairwise (· < ·)
  drained_iff : ∀ i, i ∈ w.drained ↔
    w.taken i = true ∧ w.state.consumer.due (.pooled pages i) = false
  complete : w.state.consumer.cursor.scans pages = false → ∀ i,
    (i ∈ w.drained ↔ w.taken i = true) ∧ (w.announced i = true → i ∈ w.drained)
  slot : ∀ round words index pending,
    w.state.consumer = .pass round (.bits pages words index pending) → pending ≠ 0 →
    (w.state.registry pages).slots (index * 64 + pending.ctz.toNat) =
      some (index * 64 + pending.ctz.toNat)
  late : ∀ i, w.late i = true → ReadyBit w.state pages i
  mapping : ∀ i < (w.state.registry pages).count, i < conf.maxProducers ∧
    (w.state.registry pages).slots i = some i ∧
    ∀ j, ReadyBit (w.state.publishReadyBit (.pooled pages i)) pages j ↔
      ReadyBit w.state pages j ∨ j = i

/-! ## Steps of a walk -/

variable {conf : Sealed} {s s' : State} {pages : Pages} {w w' : Scan} {t i : ℕ}

theorem bit_iff : s.bit pages i = true ↔ ReadyBit s pages i := Iff.rfl

theorem due_eq (c : ConsumerPc) (p : ProducerId) : c.due p = c.cursor.due p := by
  cases c <;> rfl

theorem due_of_not_scans {cursor : Cursor} (h : cursor.scans pages = false) :
    cursor.due (.pooled pages i) = false := by
  cases cursor with
  | bits pages' words index pending =>
      have hpages : (pages' == pages) = false := h
      simp [Cursor.due, hpages]
  | _ => rfl

theorem toCome_of_not_scans {cursor : Cursor} (h : cursor.scans pages = false) :
    cursor.toCome pages i = false := by
  cases cursor with
  | word pages' words index | bits pages' words index pending =>
      have hpages : (pages' == pages) = false := h
      simp [Cursor.toCome, hpages]
  | _ => rfl

theorem scans_afterSingle (other : Pages) : (Cursor.afterSingle other).scans pages = false := by
  cases other <;> rfl

theorem scans_afterRegistry (other : Pages) :
    (Cursor.afterRegistry other).scans pages = false := by
  cases other <;> rfl

/-- What a step does to the walk over the registry of `pages`. -/
inductive ScanMove (pages : Pages) (s s' : State) : Prop
  | «begin» (round : Round) (h : s.consumer = .pass round (.count pages))
      (h' : s'.consumer = .pass round (.word pages (((s.registry pages).count + 63) / 64) 0))
      (hregistry : s'.registry = s.registry)
  | take (round : Round) (words index : ℕ)
      (h : s.consumer = .pass round (.word pages words index)) (hlt : index < words)
      (h' : s'.consumer =
        .pass round (.bits pages words index ((s.registry pages).activeWords index)))
      (hbits : ∀ i, ReadyBit s' pages i ↔ ReadyBit s pages i ∧ i / 64 ≠ index)
  | next (round : Round) (words index : ℕ)
      (h : s.consumer = .pass round (.bits pages words index 0))
      (h' : s'.consumer = .pass round (.word pages words (index + 1)))
      (hregistry : s'.registry = s.registry)
  | visit (round : Round) (words index : ℕ) (pending : BitVec 64)
      (h : s.consumer = .pass round (.bits pages words index pending)) (hzero : pending ≠ 0)
      (h' : s'.consumer = .visit round (.bits pages words index (pending &&& (pending - 1)))
        (.pooled pages (index * 64 + pending.ctz.toNat)) .readTail)
      (hregistry : s'.registry = s.registry)
  | leave (round : Round) (words index : ℕ)
      (h : s.consumer = .pass round (.word pages words index)) (hle : words ≤ index)
      (h' : s'.consumer = .pass round (Cursor.afterRegistry pages))
      (hregistry : s'.registry = s.registry)
  | keep (hcursor : s'.consumer.cursor = s.consumer.cursor ∨
        s.consumer.cursor.scans pages = false ∧ s'.consumer.cursor.scans pages = false)
      (hbegins : begins pages s.consumer s'.consumer = false)
      (htakes : ∀ i, takes pages i s.consumer s'.consumer = false)
      (hdrains : drains pages s.consumer s'.consumer = [])
      (hbits : ∀ i, ReadyBit s pages i → ReadyBit s' pages i)

theorem ThreadStep.scanMove (hown : Ownership conf s) (hmakings : Makings conf s)
    (hstep : ThreadStep conf s t s') : ScanMove pages s s' := by
  have hconsumer := hstep.consumer_eq
  refine .keep (.inl (by rw [hconsumer])) ?_ ?_ ?_ fun i hbit =>
    (hstep.readyBit hown hmakings pages i).mpr (.inl hbit)
  · rw [hconsumer]
    cases s.consumer with
    | pass round cursor => cases cursor <;> rfl
    | _ => rfl
  · intro i
    rw [hconsumer]
    cases s.consumer with
    | pass round cursor => cases cursor <;> rfl
    | _ => rfl
  · rw [hconsumer]
    cases s.consumer with
    | pass round cursor => cases cursor <;> rfl
    | _ => rfl

theorem scans_finish (round : Round) : round.finish.cursor.scans pages = false := by
  cases round with
  | final allDrained => cases allDrained <;> rfl
  | _ => rfl

theorem ConsumerStep.scanMove (hown : Ownership conf s) (hmakings : Makings conf s)
    (hstep : ConsumerStep conf s s') : ScanMove pages s s' := by
  cases hstep with
  | @countWords round other hc hround =>
      by_cases hpages : other = pages
      · subst hpages
        exact .begin round hc rfl rfl
      · refine .keep (.inr ?_) ?_ ?_ ?_ fun i => id <;>
          simp [hc, ConsumerPc.cursor, Cursor.scans, Handoff.begins, takes, drains, hpages]
  | @takeWord round other words index hc hlt =>
      by_cases hpages : other = pages
      · subst hpages
        exact .take round words index hc hlt rfl fun i => readyBit_exchange.trans (by simp)
      · refine .keep (.inr ?_) ?_ ?_ ?_ fun i hbit =>
            readyBit_exchange.mpr ⟨hbit, fun h => hpages h.1.symm⟩ <;>
          simp [hc, ConsumerPc.cursor, Cursor.scans, Handoff.begins, takes, drains, hpages]
  | @wordsDone round other words index hc hle =>
      by_cases hpages : other = pages
      · subst hpages
        exact .leave round words index hc hle rfl rfl
      · refine .keep (.inr ⟨?_, scans_afterRegistry _⟩) ?_ ?_ ?_ fun i => id
        · simp [hc, ConsumerPc.cursor, Cursor.scans, hpages]
        all_goals cases other <;> simp [hc, Handoff.begins, takes, drains, Cursor.afterRegistry]
  | @bitsDone round other words index pending hc hzero =>
      by_cases hpages : other = pages
      · subst hpages hzero
        exact .next round words index hc rfl rfl
      · refine .keep (.inr ?_) ?_ ?_ ?_ fun i => id <;>
          simp [hc, ConsumerPc.cursor, Cursor.scans, Handoff.begins, takes, drains, hpages]
  | @bitVisit round other words index slot pending hc hzero hslot =>
      by_cases hpages : other = pages
      · subst hpages
        obtain ⟨rfl, -⟩ := (hown.registry other).layout.slot_eq hslot
        exact .visit round words index pending hc hzero rfl rfl
      · refine .keep (.inr ?_) ?_ ?_ ?_ fun i => id <;>
          simp [hc, ConsumerPc.cursor, Cursor.scans, Handoff.begins, takes, drains, hpages]
  | singleVisit hc | singleSkip hc =>
      refine .keep (.inr ⟨?_, scans_afterSingle _⟩) ?_ ?_ ?_ fun i => id <;>
        simp [hc, ConsumerPc.cursor, Cursor.scans, Handoff.begins, takes, drains]
  | slotsDone hc =>
      rename_i other _ _ _
      refine .keep (.inr ⟨?_, scans_afterRegistry _⟩) ?_ ?_ ?_ fun i => id <;> cases other <;>
        simp [hc, ConsumerPc.cursor, Cursor.scans, Handoff.begins, takes, drains]
  | passDone hc =>
      rename_i round
      refine .keep (.inr ⟨?_, scans_finish _⟩) ?_ ?_ ?_ fun i => id <;>
        simp [hc, ConsumerPc.cursor, Cursor.scans, Handoff.begins, takes, drains]
  | secondEmpty hc =>
      rename_i round resume p hempty
      refine .keep (.inl ?_) ?_ ?_ ?_ fun i => id <;> cases p <;>
        simp [hc, ConsumerPc.cursor, Handoff.begins, takes, drains, afterDrained]
  | @repost round resume p stage hc =>
      have hmade : Made conf s p :=
        made_of_visiting hown hmakings (show s.consumer.visit? = some (p, stage) by rw [hc]; rfl)
      refine .keep (.inl ?_) ?_ ?_ ?_ fun i hbit =>
          (readyBit_publish hown hmakings hmade).mpr (.inl hbit) <;>
        simp [hc, ConsumerPc.cursor, Handoff.begins, takes, drains]
  | pushFree hc =>
      refine .keep (.inl ?_) ?_ ?_ ?_ fun i hbit => (readyBit_setRegistry (by rfl)).mpr hbit <;>
        simp [hc, ConsumerPc.cursor, Handoff.begins, takes, drains]
  | sampleTicket hc | countFlush hc | slotVisit hc | startFlush hc | noFlush hc | flushSinks hc
  | completeFlush hc | stop hc | sleep hc | again hc | awake hc | finalFlush hc =>
      refine .keep (.inr ?_) ?_ ?_ ?_ fun i => id <;>
        simp [hc, ConsumerPc.cursor, Cursor.scans, Cursor.first, Handoff.begins, takes, drains]
  | consume hc | readTail hc | consumed hc | firstEmpty hc | firstFilled hc | clearEnqueued hc
  | secondFilled hc | remarkWon hc | remarkLost hc | isRetired hc | notRetired hc | markFree hc =>
      refine .keep (.inl ?_) ?_ ?_ ?_ fun i => id <;>
        simp [hc, ConsumerPc.cursor, Handoff.begins, takes, drains]

/-! ## The invariant -/

/-- The walk has exchanged the word of the index, or is at it. -/
def Cursor.Passed (pages : Pages) (i : ℕ) : Cursor → Prop
  | .word pages' _ index => pages' = pages → i / 64 < index
  | .bits pages' _ index _ => pages' = pages → i / 64 ≤ index
  | _ => True

theorem passed_of_not_scans {cursor : Cursor} (h : cursor.scans pages = false) :
    cursor.Passed pages i := by
  cases cursor with
  | word pages' words index | bits pages' words index pending =>
      intro hpages
      exact absurd hpages (by simpa [Cursor.scans] using h)
  | _ => trivial

/-- Following the lowest bit first is following the indices upwards. -/
theorem lowest_le {words index : ℕ} {pending : BitVec 64}
    (h : (Cursor.bits pages words index pending).due (.pooled pages i) = true) :
    index * 64 + pending.ctz.toNat ≤ i := by
  rw [due_bits, Bool.and_eq_true, beq_iff_eq] at h
  obtain ⟨hindex, hbit⟩ := h
  have hle : pending.ctz.toNat ≤ i % 64 := by
    by_contra hlt
    rw [BitVec.getLsbD_false_of_lt_ctz (Nat.lt_of_not_le hlt)] at hbit
    contradiction
  omega

/-- The bits taken belong to registered producers, are followed in order, and are passed; bits
that were set at the start are taken or lie ahead, and late ones stay. -/
structure WalkSound (pages : Pages) (w : Scan) : Prop where
  taken_lt : ∀ i, w.taken i = true → i < (w.state.registry pages).count
  increasing : w.drained.Pairwise (· < ·)
  drained_iff : ∀ i, i ∈ w.drained ↔
    w.taken i = true ∧ w.state.consumer.cursor.due (.pooled pages i) = false
  due_taken : ∀ i, w.state.consumer.cursor.due (.pooled pages i) = true → w.taken i = true
  ordered : ∀ i ∈ w.drained, ∀ j, w.state.consumer.cursor.due (.pooled pages j) = true → i < j
  passed : ∀ i, w.taken i = true → w.state.consumer.cursor.Passed pages i
  late : ∀ i, w.late i = true →
    ReadyBit w.state pages i ∧ w.state.consumer.cursor.toCome pages i = false
  announced : ∀ i, w.announced i = true → w.taken i = true ∨
    ReadyBit w.state pages i ∧ w.state.consumer.cursor.toCome pages i = true

theorem Scan.next_first (h : begins pages w.state.consumer s'.consumer = true) :
    (w.next pages s').announced = w.state.bit pages ∧
      (w.next pages s').taken = (fun _ => false) ∧ (w.next pages s').drained = [] := by
  simp [Scan.next, h]

theorem Scan.next_other (h : begins pages w.state.consumer s'.consumer = false) :
    (w.next pages s').announced = w.announced ∧
      (∀ i, (w.next pages s').taken i = (w.taken i ||
        takes pages i w.state.consumer s'.consumer && w.state.bit pages i)) ∧
      (w.next pages s').drained = w.drained ++ drains pages w.state.consumer s'.consumer := by
  simp [Scan.next, h]

/-- A bit becomes late where the walk has no word to come, and late bits are kept. -/
theorem WalkSound.late_next
    (hkeep : begins pages w.state.consumer s'.consumer = false → ∀ i,
      ReadyBit w.state pages i ∧ w.state.consumer.cursor.toCome pages i = false →
      ReadyBit s' pages i ∧ s'.consumer.cursor.toCome pages i = false)
    (hs : WalkSound pages w) (i : ℕ) (h : (w.next pages s').late i = true) :
    ReadyBit s' pages i ∧ s'.consumer.cursor.toCome pages i = false := by
  simp only [Scan.next, Bool.or_eq_true, Bool.and_eq_true, Bool.not_eq_true'] at h
  rcases h with ⟨hbegins, hlate⟩ | ⟨⟨-, htoCome⟩, hbit⟩
  · exact hkeep (by simpa using hbegins) i (hs.late i hlate)
  · exact ⟨hbit, htoCome⟩

/-- The count is read: every bit that is set lies ahead. -/
theorem WalkSound.begin (hs : WalkSound pages w) {round : Round}
    (hrange : ∀ i, ReadyBit w.state pages i → i < (w.state.registry pages).count)
    (h : w.state.consumer = .pass round (.count pages))
    (h' : s'.consumer =
      .pass round (.word pages (((w.state.registry pages).count + 63) / 64) 0))
    (hregistry : s'.registry = w.state.registry) : WalkSound pages (w.next pages s') := by
  have hbegins : begins pages w.state.consumer s'.consumer = true := by simp [h, h', begins]
  have hcursor : (w.next pages s').state.consumer.cursor =
      .word pages (((w.state.registry pages).count + 63) / 64) 0 := by
    simp [Scan.next, h', ConsumerPc.cursor]
  obtain ⟨hannounced, htaken, hdrained⟩ := Scan.next_first hbegins
  refine ⟨?_, ?_, ?_, ?_, ?_, ?_, hs.late_next ?_, ?_⟩
  · simp [htaken]
  · simp [hdrained]
  · simp [hdrained, htaken]
  · simp [hcursor]
  · simp [hdrained]
  · simp [htaken]
  · rw [hbegins]
    exact fun hfalse => by contradiction
  · intro i hi
    rw [hannounced] at hi
    have hlt := hrange i hi
    refine .inr ⟨?_, ?_⟩
    · change ReadyBit s' pages i
      rw [ReadyBit, hregistry]
      exact hi
    · simp only [hcursor, Cursor.toCome, beq_self_eq_true, Bool.true_and, decide_eq_true_eq]
      omega

/-- A word is exchanged: its bits are taken, and no late one was among them. -/
theorem WalkSound.take (hs : WalkSound pages w) {round : Round} {words index : ℕ}
    (hrange : ∀ i, ReadyBit w.state pages i → i < (w.state.registry pages).count)
    (hcount : (w.state.registry pages).count ≤ (s'.registry pages).count)
    (h : w.state.consumer = .pass round (.word pages words index)) (hlt : index < words)
    (h' : s'.consumer =
      .pass round (.bits pages words index ((w.state.registry pages).activeWords index)))
    (hbits : ∀ i, ReadyBit s' pages i ↔ ReadyBit w.state pages i ∧ i / 64 ≠ index) :
    WalkSound pages (w.next pages s') := by
  have hbegins : begins pages w.state.consumer s'.consumer = false := by simp [h, begins]
  have htakes : ∀ i, takes pages i w.state.consumer s'.consumer = (i / 64 == index) := by
    simp [h, h', takes]
  have hdrains : drains pages w.state.consumer s'.consumer = [] := by simp [h, drains]
  have hold : w.state.consumer.cursor = .word pages words index := by rw [h]; rfl
  have hcursor : (w.next pages s').state.consumer.cursor =
      .bits pages words index ((w.state.registry pages).activeWords index) := by
    simp [Scan.next, h', ConsumerPc.cursor]
  obtain ⟨hannounced, htaken, hdrained⟩ := Scan.next_other hbegins
  rw [hdrains, List.append_nil] at hdrained
  have htaken' : ∀ i, (w.next pages s').taken i = true ↔
      w.taken i = true ∨ i / 64 = index ∧ ReadyBit w.state pages i := by
    intro i
    rw [htaken, htakes, Bool.or_eq_true, Bool.and_eq_true, beq_iff_eq, bit_iff]
  have hdue : ∀ i, (w.next pages s').state.consumer.cursor.due (.pooled pages i) = true ↔
      i / 64 = index ∧ ReadyBit w.state pages i := by
    intro i
    rw [hcursor, due_bits, Bool.and_eq_true, beq_iff_eq]
    constructor
    · rintro ⟨rfl, hbit⟩
      exact ⟨rfl, hbit⟩
    · rintro ⟨rfl, hbit⟩
      exact ⟨rfl, hbit⟩
  have hpassed : ∀ i, w.taken i = true → i / 64 < index := by
    intro i hi
    have hpassed := hs.passed i hi
    rw [hold] at hpassed
    exact hpassed rfl
  have hdrainedTaken : ∀ i, i ∈ w.drained ↔ w.taken i = true := by
    intro i
    rw [hs.drained_iff, hold, due_word]
    simp
  refine ⟨?_, ?_, ?_, ?_, ?_, ?_, hs.late_next ?_, ?_⟩
  · intro i hi
    refine Nat.lt_of_lt_of_le ?_ hcount
    rcases (htaken' i).mp hi with hi | ⟨-, hbit⟩
    · exact hs.taken_lt i hi
    · exact hrange i hbit
  · rw [hdrained]
    exact hs.increasing
  · intro i
    rw [hdrained, hdrainedTaken, htaken', ← Bool.not_eq_true, hdue]
    have hne := hpassed i
    constructor
    · intro hi
      exact ⟨.inl hi, fun hnew => (hne hi).ne hnew.1⟩
    · rintro ⟨hi | hnew, hnot⟩
      · exact hi
      · exact absurd hnew hnot
  · intro i hi
    exact (htaken' i).mpr (.inr ((hdue i).mp hi))
  · intro i hi j hj
    rw [hdrained, hdrainedTaken] at hi
    have hlow := hpassed i hi
    have hindex := ((hdue j).mp hj).1
    omega
  · intro i hi
    rw [hcursor]
    intro _
    rcases (htaken' i).mp hi with hi | ⟨hindex, -⟩
    · exact (hpassed i hi).le
    · exact hindex.le
  · intro _ i hlate
    rw [hold] at hlate
    obtain ⟨hbit, hcome⟩ := hlate
    simp only [Cursor.toCome, beq_self_eq_true, Bool.true_and, decide_eq_false_iff_not] at hcome
    rw [hbits, h']
    simp only [ConsumerPc.cursor, Cursor.toCome, beq_self_eq_true, Bool.true_and,
      decide_eq_false_iff_not]
    exact ⟨⟨hbit, by omega⟩, by omega⟩
  · intro i hi
    rw [hannounced] at hi
    rw [htaken', hcursor]
    change _ ∨ ReadyBit s' pages i ∧ _
    rw [hbits]
    rcases hs.announced i hi with htaken | ⟨hbit, hcome⟩
    · exact .inl (.inl htaken)
    · rw [hold] at hcome
      simp only [Cursor.toCome, beq_self_eq_true, Bool.true_and, decide_eq_true_eq] at hcome ⊢
      by_cases hindex : i / 64 = index
      · exact .inl (.inr ⟨hindex, hbit⟩)
      · exact .inr ⟨⟨hbit, hindex⟩, by omega⟩

/-- Nothing is taken, and the producers that come next, if any, are drained. -/
theorem WalkSound.advance (hs : WalkSound pages w) {l : List ℕ}
    (hbegins : begins pages w.state.consumer s'.consumer = false)
    (htakes : ∀ i, takes pages i w.state.consumer s'.consumer = false)
    (hdrains : drains pages w.state.consumer s'.consumer = l)
    (hcount : (w.state.registry pages).count ≤ (s'.registry pages).count)
    (hbits : ∀ i, ReadyBit w.state pages i → ReadyBit s' pages i)
    (hdue : ∀ i, s'.consumer.cursor.due (.pooled pages i) = true ↔
      w.state.consumer.cursor.due (.pooled pages i) = true ∧ i ∉ l)
    (hnext : ∀ i ∈ l, w.state.consumer.cursor.due (.pooled pages i) = true ∧
      ∀ j, s'.consumer.cursor.due (.pooled pages j) = true → i < j)
    (hsorted : l.Pairwise (· < ·))
    (hpassed : ∀ i, w.state.consumer.cursor.Passed pages i → s'.consumer.cursor.Passed pages i)
    (hcome : ∀ i, s'.consumer.cursor.toCome pages i = w.state.consumer.cursor.toCome pages i) :
    WalkSound pages (w.next pages s') := by
  obtain ⟨hannounced, htaken, hdrained⟩ := Scan.next_other hbegins
  rw [hdrains] at hdrained
  have htaken' : ∀ i, (w.next pages s').taken i = w.taken i := by
    intro i
    rw [htaken, htakes, Bool.false_and, Bool.or_false]
  refine ⟨?_, ?_, ?_, ?_, ?_, ?_, hs.late_next ?_, ?_⟩
  · intro i hi
    rw [htaken'] at hi
    exact Nat.lt_of_lt_of_le (hs.taken_lt i hi) hcount
  · rw [hdrained, List.pairwise_append]
    exact ⟨hs.increasing, hsorted, fun i hi j hj => hs.ordered i hi j (hnext j hj).1⟩
  · intro i
    change _ ↔ _ ∧ s'.consumer.cursor.due (.pooled pages i) = false
    rw [hdrained, List.mem_append, hs.drained_iff, htaken', ← Bool.not_eq_true, ← Bool.not_eq_true,
      hdue]
    constructor
    · rintro (⟨hi, hnot⟩ | hi)
      · exact ⟨hi, fun h => hnot h.1⟩
      · exact ⟨hs.due_taken i (hnext i hi).1, fun h => h.2 hi⟩
    · rintro ⟨hi, hnot⟩
      by_cases hmem : i ∈ l
      · exact .inr hmem
      · exact .inl ⟨hi, fun h => hnot ⟨h, hmem⟩⟩
  · intro i hi
    rw [htaken']
    exact hs.due_taken i ((hdue i).mp hi).1
  · intro i hi j hj
    rw [hdrained, List.mem_append] at hi
    rcases hi with hi | hi
    · exact hs.ordered i hi j ((hdue j).mp hj).1
    · exact (hnext i hi).2 j hj
  · intro i hi
    rw [htaken'] at hi
    exact hpassed i (hs.passed i hi)
  · intro _ i hlate
    exact ⟨hbits i hlate.1, (hcome i).trans hlate.2⟩
  · intro i hi
    rw [hannounced] at hi
    rw [htaken']
    rcases hs.announced i hi with htaken | ⟨hbit, hahead⟩
    · exact .inl htaken
    · exact .inr ⟨hbits i hbit, (hcome i).trans hahead⟩

theorem WalkSound.move (hs : WalkSound pages w)
    (hrange : ∀ i, ReadyBit w.state pages i → i < (w.state.registry pages).count)
    (hcount : (w.state.registry pages).count ≤ (s'.registry pages).count)
    (hmove : ScanMove pages w.state s') : WalkSound pages (w.next pages s') := by
  have hsame : s'.registry = w.state.registry → ∀ i, ReadyBit w.state pages i →
      ReadyBit s' pages i := by
    intro hregistry i hbit
    rw [ReadyBit, hregistry]
    exact hbit
  cases hmove with
  | «begin» round h h' hregistry => exact hs.begin hrange h h' hregistry
  | take round words index h hlt h' hbits => exact hs.take hrange hcount h hlt h' hbits
  | next round words index h h' hregistry =>
      have hold : w.state.consumer.cursor = .bits pages words index 0 := by rw [h]; rfl
      have hnew : s'.consumer.cursor = .word pages words (index + 1) := by rw [h']; rfl
      refine hs.advance (l := []) ?_ ?_ ?_ hcount (hsame hregistry) ?_ ?_ .nil ?_ ?_
      · simp [h, begins]
      · simp [h, h', takes]
      · simp [h, h', drains]
      · intro i
        rw [hold, hnew, due_bits_zero, due_word]
        simp
      · simp
      · intro i hpassed
        rw [hold] at hpassed
        rw [hnew]
        exact fun hpages => Nat.lt_succ_of_le (hpassed hpages)
      · intro i
        rw [hold, hnew]
        simp only [Cursor.toCome, Nat.succ_le_iff]
  | visit round words index pending h hzero h' hregistry =>
      have hold : w.state.consumer.cursor = .bits pages words index pending := by rw [h]; rfl
      have hnew : s'.consumer.cursor = .bits pages words index (pending &&& (pending - 1)) := by
        rw [h']
        rfl
      have hdue : ∀ i, s'.consumer.cursor.due (.pooled pages i) = true ↔
          w.state.consumer.cursor.due (.pooled pages i) = true ∧
            i ∉ [index * 64 + pending.ctz.toNat] := by
        intro i
        rw [hold, hnew, due_bits_next hzero]
        simp
      refine hs.advance (l := [index * 64 + pending.ctz.toNat]) ?_ ?_ ?_ hcount
        (hsame hregistry) hdue ?_ (List.pairwise_singleton ..) ?_ ?_
      · simp [h, begins]
      · simp [h, takes]
      · simp [h, h', drains]
      · intro i hi
        obtain rfl := List.mem_singleton.mp hi
        rw [hold]
        refine ⟨due_bits_lowest hzero, fun j hj => ?_⟩
        obtain ⟨hdueJ, hne⟩ := (hdue j).mp hj
        rw [hold] at hdueJ
        have hle := lowest_le hdueJ
        rw [List.mem_singleton] at hne
        omega
      · intro i hpassed
        rw [hold] at hpassed
        rw [hnew]
        exact hpassed
      · intro i
        rw [hold, hnew]
        rfl
  | leave round words index h hle h' hregistry =>
      have hscans : s'.consumer.cursor.scans pages = false := by
        rw [h']
        exact scans_afterRegistry pages
      have hold : w.state.consumer.cursor = .word pages words index := by rw [h]; rfl
      refine hs.advance (l := []) ?_ ?_ ?_ hcount (hsame hregistry) ?_ ?_ .nil ?_ ?_
      · simp [h, begins]
      · intro i
        cases pages <;> simp [h, h', takes, Cursor.afterRegistry]
      · simp [h, drains]
      · intro i
        rw [hold, due_of_not_scans hscans]
        simp
      · simp
      · exact fun i _ => passed_of_not_scans hscans
      · intro i
        rw [hold, toCome_of_not_scans hscans]
        simp only [Cursor.toCome, beq_self_eq_true, Bool.true_and]
        exact (decide_eq_false (by omega)).symm
  | keep hcursor hbegins htakes hdrains hbits =>
      have hdue : ∀ i, s'.consumer.cursor.due (.pooled pages i) =
          w.state.consumer.cursor.due (.pooled pages i) := by
        intro i
        rcases hcursor with hsame | ⟨hold, hnew⟩
        · rw [hsame]
        · rw [due_of_not_scans hold, due_of_not_scans hnew]
      refine hs.advance hbegins htakes hdrains hcount hbits ?_ ?_ .nil ?_ ?_
      · simp [hdue]
      · simp
      · intro i hpassed
        rcases hcursor with hsame | ⟨-, hnew⟩
        · rwa [hsame]
        · exact passed_of_not_scans hnew
      · intro i
        rcases hcursor with hsame | ⟨hold, hnew⟩
        · rw [hsame]
        · rw [toCome_of_not_scans hold, toCome_of_not_scans hnew]

/-! ## Every walk -/

/-- Who owns what does not depend on the ready bits. -/
theorem ownership_withBits (h : Ownership conf s) (bits : Pages → ℕ → BitVec 64) :
    Ownership conf (s.withBits bits) where
  registry pages := by
    obtain ⟨layout, holding, visiting, pushing, list, hlist⟩ := h.registry pages
    exact
      { layout := ⟨layout.size_eq, layout.le_max, layout.slots_eq, layout.binding⟩
        holding := ⟨holding.fresh, holding.held, holding.unique, holding.owned⟩
        freeing := ⟨visiting, pushing, list,
          ⟨hlist.chain, hlist.nodup, hlist.sound, hlist.complete, hlist.apart⟩⟩ }
  pc t := ⟨(h.pc t).holds, (h.pc t).owns, (h.pc t).acquiring, (h.pc t).publishing⟩
  leaving := h.leaving

theorem makings_withBits (h : Makings conf s) (bits : Pages → ℕ → BitVec 64) :
    Makings conf (s.withBits bits) where
  plain := h.plain
  working := h.working
  visiting := h.visiting
  untouched p hnot := h.untouched p fun hmade => hnot (by cases p <;> exact hmade)

/-- The walk is sound in a hand-off whose registries are. -/
structure ScanSound (conf : Sealed) (pages : Pages) (w : Scan) : Prop extends
    WalkSound pages w where
  ownership : Ownership conf w.state
  makings : Makings conf w.state
  range : ∀ i, ReadyBit w.state pages i → i < (w.state.registry pages).count

theorem scanSound_of_reachable (h : (scan conf pages).Reachable w) : ScanSound conf pages w := by
  refine h.invariant ?_ fun w a w' _ hs hstep => ?_
  · rintro _ ⟨s, bits, hs, hscans, hrange, rfl⟩
    have hcursor : (s.withBits bits).consumer.cursor.scans pages = false := hscans
    refine
      { ownership := ownership_withBits (ownership_of_reachable hs) bits
        makings := makings_withBits (makings_of_reachable hs) bits
        range := hrange pages
        taken_lt := by simp
        increasing := .nil
        drained_iff := by simp
        due_taken := fun i hi => ?_
        ordered := by simp
        passed := by simp
        late := by simp
        announced := by simp }
    rw [due_of_not_scans hcursor] at hi
    contradiction
  · obtain ⟨s', hnext, rfl⟩ := Option.map_eq_some_iff.mp hstep
    have hmove : ScanMove pages w.state s' := by
      rcases step_cases hnext with ⟨t, hthread⟩ | hconsumer
      · exact hthread.scanMove hs.ownership hs.makings
      · exact hconsumer.scanMove hs.ownership hs.makings
    exact
      { hs.toWalkSound.move hs.range (count_le hs.ownership hnext pages) hmove with
        ownership := ownership_step hs.ownership hnext
        makings := makings_step hs.ownership hs.makings hnext
        range := fun i => readyBit_lt hs.ownership hs.makings hnext hs.range }

/-- From any reachable registry and any ready bits, whatever registers and signals meanwhile. -/
theorem scanContract_of_reachable (h : (scan conf pages).Reachable w) :
    ScanContract conf pages w := by
  have hs := scanSound_of_reachable h
  have hlayout := (hs.ownership.registry pages).layout
  have hslot : ∀ i < (w.state.registry pages).count,
      (w.state.registry pages).slots i = some i := by
    intro i hi
    rw [hlayout.slots_eq, if_pos hi]
  refine ⟨hs.increasing, ?_, ?_, ?_, fun i hi => (hs.late i hi).1, ?_⟩
  · intro i
    rw [due_eq]
    exact hs.drained_iff i
  · intro hscans i
    have hcomplete : i ∈ w.drained ↔ w.taken i = true := by
      rw [hs.drained_iff, due_of_not_scans hscans]
      simp
    refine ⟨hcomplete, fun hi => hcomplete.mpr ?_⟩
    rcases hs.announced i hi with htaken | ⟨-, hcome⟩
    · exact htaken
    · rw [toCome_of_not_scans hscans] at hcome
      contradiction
  · intro round words index pending hc hzero
    apply hslot
    apply hs.taken_lt
    apply hs.due_taken
    rw [hc]
    exact due_bits_lowest hzero
  · intro i hi
    refine ⟨Nat.lt_of_lt_of_le hi hlayout.le_max, hslot i hi, fun j => ?_⟩
    rw [readyBit_publish hs.ownership hs.makings (p := .pooled pages i) hi]
    simp [eq_comm]

def demoWide : Sealed := { demo with maxProducers := 128 }

/-- 66 threads acquire producers, two of them publish a record, and the consumer walks from the
first word to the producer in the second. -/
def demoScan : List Action :=
  List.flatten
    [(List.range 66).flatMap fun t => [.call t (.logUnchecked 0), .thread t, .thread t],
      [3, 65].flatMap fun t => [.produce t .written, .thread t, .thread t, .thread t],
      List.replicate 16 .consumer]

theorem scanContract_words :
    ∃ w, (scan demoWide .normal).Reachable w ∧ w.drained = [3, 65] ∧
      w.state.consumer.visit? = some (.pooled .normal 65, .readTail) ∧
      ScanContract demoWide .normal w := by
  let first : Scan := { state := (State.started demoWide fun _ => .info).withBits fun _ _ => 0 }
  have hinitial : (scan demoWide .normal).Reachable first := by
    refine .initial ⟨State.started demoWide fun _ => .info, fun _ _ => 0, .initial ⟨_, rfl⟩, rfl,
      ?_, rfl⟩
    intro pages i hbit
    simp [ReadyBit, State.withBits] at hbit
  have hrun : ((scan demoWide .normal).run first demoScan).map
      (fun w => (w.drained, w.state.consumer.visit?)) =
        some ([3, 65], some (.pooled .normal 65, .readTail)) := by
    decide +kernel
  obtain ⟨w, hw, hfacts⟩ := Option.map_eq_some_iff.mp hrun
  obtain ⟨hdrained, hvisit⟩ := Prod.mk.inj hfacts
  have hreachable := hinitial.run hw
  exact ⟨w, hreachable, hdrained, hvisit, scanContract_of_reachable hreachable⟩

end Unlog.Handoff
