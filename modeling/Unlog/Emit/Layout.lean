import Unlog.Emit.RecordSlot

/-! # The layout of an admitted configuration -/

namespace Unlog.Emit

/-! ## What `configured` and its queues assert -/

/-- `std::has_single_bit`. -/
def hasSingleBit (n : ℕ) : Bool := decide n.isPowerOfTwo

theorem hasSingleBit_iff {n : ℕ} : hasSingleBit n = true ↔ ∃ k, n = 2 ^ k :=
  decide_eq_true_iff

def defaultHugeThreadBufsize : ℕ := 2097152

/-- The configuration passes the `static_assert`s of `configured`; its sizes are `size_t`s. -/
structure Admitted (global : GlobalConfig) : Prop where
  recordSize_lt : global.maxRecordSize < 2 ^ 64
  bufsize_lt : global.threadBufsize < 2 ^ 64
  hugeBufsize_lt : global.hugeThreadBufsize < 2 ^ 64
  producers_lt : global.maxProducers < 2 ^ 64
  recordSize_bit : hasSingleBit global.maxRecordSize = true
  header_lt : recordSlotHeaderSize < global.maxRecordSize
  bufsize_bit : hasSingleBit global.threadBufsize = true
  hugeBufsize_bit : hasSingleBit global.hugeThreadBufsize = true
  recordSize_le : global.maxRecordSize ≤ global.threadBufsize
  hugeBufsize_ge : defaultHugeThreadBufsize ≤ global.hugeThreadBufsize
  bufsize_mod : global.threadBufsize % global.maxRecordSize = 0
  hugeBufsize_mod : global.hugeThreadBufsize % global.maxRecordSize = 0
  hugeDefault_mod : global.hugeThreadBufsize % defaultHugeThreadBufsize = 0
  hugeDefault_bit : hasSingleBit (global.hugeThreadBufsize / defaultHugeThreadBufsize) = true
  producers_bit : hasSingleBit global.maxProducers = true

/-- `sizeof(basic_record_slot<MaxRecordSize>)`: the header, the payload, and padding. -/
def sizeofRecordSlot (maxRecordSize : ℕ) : ℕ :=
  alignRecordSize (recordSlotHeaderSize + payloadStorageSize maxRecordSize)

/-- `valid_record_slot_v`. -/
def validRecordSlot (maxRecordSize : ℕ) : Bool :=
  (payloadCapacityForRecordSlotLimit maxRecordSize).isSome &&
    decide (sizeofRecordSlot maxRecordSize ≤ recordSlotStorageSize maxRecordSize)

/-- `configured_queue_traits::buffer_size`. -/
def bufferSize (global : GlobalConfig) (hugePages : Bool) : ℕ :=
  if hugePages then global.hugeThreadBufsize else global.threadBufsize

/-- `configured_queue_traits::capacity`. -/
def queueCapacity (global : GlobalConfig) (hugePages : Bool) : ℕ :=
  bufferSize global hugePages / sizeofRecordSlot global.maxRecordSize

/-- The sizes of slots and queues. -/
structure SoundSizes (global : GlobalConfig) : Prop where
  noWrap : global.maxRecordSize + (recordAlignment - 1) < 2 ^ 64
  validSlot : validRecordSlot global.maxRecordSize = true
  slotSize : sizeofRecordSlot global.maxRecordSize = global.maxRecordSize
  capacity : payloadCapacity global.maxRecordSize = global.maxRecordSize - 40
  capacity_pos : 0 < payloadCapacity global.maxRecordSize
  queueCapacity_bit : ∀ hugePages, ∃ k, queueCapacity global hugePages = 2 ^ k
  queueCapacity_mul : ∀ hugePages,
    queueCapacity global hugePages * sizeofRecordSlot global.maxRecordSize =
      bufferSize global hugePages

/-- Sound sizes, and messages that come back as they were written. -/
structure SoundLayout (global : GlobalConfig) : Prop extends SoundSizes global where
  payloadSize : ∀ size ≤ payloadCapacity global.maxRecordSize, size % 2 ^ 32 = size
  message : ∀ {E : Type} (payload : Payload global.maxRecordSize) (route : Option ℕ)
    (level : LogLevel) (timestamp : UInt64) (sourceFile : Option ℕ) (sourceLine : ℤ)
    (overflowPolicy : OverflowPolicy) (payloadLimit : ℕ) (formatted : Text),
    let slot := BasicRecordSlot.construct payload route level timestamp sourceFile sourceLine
    ∃ slot' result,
      writeRecordSlot slot overflowPolicy payloadLimit (.text formatted : Formatting E) =
        some (slot', .ok result) ∧
      WriteContract (min payloadLimit slot.capacity) overflowPolicy formatted slot slot' result

/-! ## Sizes of slots -/

/-- A multiple of the alignment whose rounding does not wrap is already aligned. -/
theorem alignRecordSize_of_dvd {size : ℕ} (h : recordAlignment ∣ size)
    (hwrap : size + (recordAlignment - 1) < 2 ^ 64) : alignRecordSize size = size := by
  obtain ⟨words, rfl⟩ := h
  simp only [alignRecordSize, recordAlignment] at hwrap ⊢
  omega

theorem alignRecordSize_header : alignRecordSize recordSlotHeaderSize = 40 := by decide

/-- A power of two beyond the header is a multiple of 64. -/
theorem dvd_of_header_lt {size : ℕ} (hbit : hasSingleBit size = true)
    (hsize : recordSlotHeaderSize < size) : 64 ∣ size := by
  obtain ⟨k, rfl⟩ := hasSingleBit_iff.mp hbit
  have hk : 6 ≤ k := by
    by_contra hk
    have hle : 2 ^ k ≤ 2 ^ 5 := Nat.pow_le_pow_right (by decide) (by omega)
    simp only [recordSlotHeaderSize] at hsize
    omega
  exact pow_dvd_pow 2 hk

section Slot

variable {size : ℕ}

/-- Powers of two below `2 ^ 64` stay clear of the end of the word. -/
theorem noWrap_of_bit (hbit : hasSingleBit size = true) (hsize : size < 2 ^ 64) :
    size + (recordAlignment - 1) < 2 ^ 64 := by
  obtain ⟨k, rfl⟩ := hasSingleBit_iff.mp hbit
  have hk : k < 64 := (Nat.pow_lt_pow_iff_right (by decide)).mp hsize
  have hle : 2 ^ k ≤ 2 ^ 63 := Nat.pow_le_pow_right (by decide) (by omega)
  simp only [recordAlignment]
  omega

variable (hdvd : 64 ∣ size) (hheader : recordSlotHeaderSize < size)
  (hwrap : size + (recordAlignment - 1) < 2 ^ 64)

include hdvd hheader hwrap

theorem payloadCapacityForRecordSlotLimit_eq :
    payloadCapacityForRecordSlotLimit size = some (size - 40) := by
  have hstorage : recordSlotStorageSize size = size :=
    alignRecordSize_of_dvd (dvd_trans (by decide) hdvd) hwrap
  simp only [payloadCapacityForRecordSlotLimit, hstorage, alignRecordSize_header]
  exact if_neg (Nat.not_lt.mpr (Nat.le_of_lt hheader))

theorem payloadCapacity_eq : payloadCapacity size = size - 40 := by
  rw [payloadCapacity, payloadCapacityForRecordSlotLimit_eq hdvd hheader hwrap]
  rfl

theorem sizeofRecordSlot_eq : sizeofRecordSlot size = size := by
  have hcapacity := payloadCapacity_eq hdvd hheader hwrap
  have hstorage : payloadStorageSize size = size - 40 := by
    simp only [recordSlotHeaderSize] at hheader
    rw [payloadStorageSize, if_neg (by omega), hcapacity]
  have htotal : recordSlotHeaderSize + payloadStorageSize size = size := by
    simp only [recordSlotHeaderSize] at hheader ⊢
    omega
  rw [sizeofRecordSlot, htotal]
  exact alignRecordSize_of_dvd (dvd_trans (by decide) hdvd) hwrap

theorem validRecordSlot_eq : validRecordSlot size = true := by
  have hstorage : recordSlotStorageSize size = size :=
    alignRecordSize_of_dvd (dvd_trans (by decide) hdvd) hwrap
  simp [validRecordSlot, payloadCapacityForRecordSlotLimit_eq hdvd hheader hwrap,
    sizeofRecordSlot_eq hdvd hheader hwrap, hstorage]

end Slot

/-! ## Admitted configurations -/

variable {global : GlobalConfig}

theorem Admitted.bufferSize_bit (h : Admitted global) (hugePages : Bool) :
    hasSingleBit (bufferSize global hugePages) = true := by
  cases hugePages with
  | false => exact h.bufsize_bit
  | true => exact h.hugeBufsize_bit

theorem Admitted.recordSize_dvd (h : Admitted global) (hugePages : Bool) :
    global.maxRecordSize ∣ bufferSize global hugePages := by
  cases hugePages with
  | false => exact Nat.dvd_of_mod_eq_zero h.bufsize_mod
  | true => exact Nat.dvd_of_mod_eq_zero h.hugeBufsize_mod

/-- Everything but the length field fits every admitted configuration. -/
theorem Admitted.soundSizes (h : Admitted global) : SoundSizes global := by
  have hheader := h.header_lt
  have hdvd := dvd_of_header_lt h.recordSize_bit hheader
  have hwrap := noWrap_of_bit h.recordSize_bit h.recordSize_lt
  have hslot := sizeofRecordSlot_eq hdvd hheader hwrap
  have hcapacity := payloadCapacity_eq hdvd hheader hwrap
  refine ⟨hwrap, validRecordSlot_eq hdvd hheader hwrap, hslot, hcapacity, ?_, ?_, ?_⟩
  · simp only [recordSlotHeaderSize] at hheader
    omega
  · intro hugePages
    obtain ⟨buffer, hbuffer⟩ := hasSingleBit_iff.mp (h.bufferSize_bit hugePages)
    obtain ⟨record, hrecord⟩ := hasSingleBit_iff.mp h.recordSize_bit
    have hle : record ≤ buffer := by
      have hdivides := h.recordSize_dvd hugePages
      rw [hbuffer, hrecord] at hdivides
      exact (Nat.pow_dvd_pow_iff_le_right (by decide)).mp hdivides
    use buffer - record
    rw [queueCapacity, hslot, hbuffer, hrecord, Nat.pow_div hle (by decide)]
  · intro hugePages
    rw [queueCapacity, hslot]
    exact Nat.div_mul_cancel (h.recordSize_dvd hugePages)

/-- The payload stays below `2 ^ 32` up to and including records of `2 ^ 32` bytes. -/
theorem Admitted.capacity_lt_iff (h : Admitted global) :
    payloadCapacity global.maxRecordSize < 2 ^ 32 ↔ global.maxRecordSize ≤ 2 ^ 32 := by
  have hcapacity := h.soundSizes.capacity
  have hheader := h.header_lt
  simp only [recordSlotHeaderSize] at hheader
  obtain ⟨k, hk⟩ := hasSingleBit_iff.mp h.recordSize_bit
  constructor
  · intro hlt
    by_contra hlong
    have hk' : 33 ≤ k := by
      by_contra hk'
      have hle : 2 ^ k ≤ 2 ^ 32 := Nat.pow_le_pow_right (by decide) (by omega)
      omega
    have hge : 2 ^ 33 ≤ 2 ^ k := Nat.pow_le_pow_right (by decide) hk'
    omega
  · omega

/-- A text of `2 ^ 32` characters that fits is stored and read back as the empty text. -/
theorem message_of_wrapped {E : Type} {maxRecordSize : ℕ} (slot : BasicRecordSlot maxRecordSize)
    (hcapacity : 2 ^ 32 ≤ payloadCapacity maxRecordSize) (overflowPolicy : OverflowPolicy)
    {formatted : Text} (hformatted : formatted.length = 2 ^ 32) :
    ∃ slot', writeRecordSlotUnlimited slot overflowPolicy (.text formatted : Formatting E) =
        some (slot', .ok .written) ∧ slot'.message = [] := by
  obtain ⟨slot', result, hwrite, hwrote⟩ :=
    writeRecordSlot_text (E := E) slot overflowPolicy slot.capacity formatted
  have hfits : formatted.length ≤ min slot.capacity slot.capacity := by
    rw [min_self, hformatted]
    exact hcapacity
  cases hwrote with
  | written =>
      refine ⟨_, hwrite, ?_⟩
      simp [BasicRecordSlot.message, hformatted]
  | dropped hlong => omega
  | truncated hlong => omega

/-- The length field is the only limit: the layout of an admitted configuration is sound
exactly if its records have at most `2 ^ 32` bytes. -/
theorem soundLayout_iff (h : Admitted global) :
    SoundSizes global ∧ (SoundLayout global ↔ global.maxRecordSize ≤ 2 ^ 32) := by
  refine ⟨h.soundSizes, ?_, ?_⟩
  · intro hsound
    rw [← h.capacity_lt_iff]
    by_contra hlong
    have hlossless := hsound.payloadSize (2 ^ 32) (Nat.le_of_not_lt hlong)
    rw [Nat.mod_self] at hlossless
    contradiction
  · intro hrecord
    have hcapacity := h.capacity_lt_iff.mpr hrecord
    refine { h.soundSizes with payloadSize := ?_, message := ?_ }
    · intro size hsize
      exact Nat.mod_eq_of_lt (hsize.trans_lt hcapacity)
    · intro E payload route level timestamp sourceFile sourceLine overflowPolicy payloadLimit
        formatted
      obtain ⟨slot', result, hwrite, hwrote⟩ := writeRecordSlot_text (E := E)
        (.construct payload route level timestamp sourceFile sourceLine) overflowPolicy
        payloadLimit formatted
      have hlimit : min payloadLimit (payloadCapacity global.maxRecordSize) < 2 ^ 32 :=
        min_lt_iff.mpr (.inr hcapacity)
      exact ⟨slot', result, hwrite, hwrote.contract hlimit rfl⟩

theorem admitted_default : Admitted {} := by
  constructor <;> decide

theorem soundLayout_default : SoundLayout {} :=
  (soundLayout_iff admitted_default).2.mpr (by decide)

/-- Records of 8 GiB, one to a buffer. -/
def wideGlobal : GlobalConfig :=
  { threadBufsize := 2 ^ 33, hugeThreadBufsize := 2 ^ 33, maxRecordSize := 2 ^ 33 }

theorem admitted_wide : Admitted wideGlobal := by
  constructor <;> decide

/-- A message of 4 GiB fits such a record, is reported as written, and comes back empty. -/
theorem not_soundLayout_wide : Admitted wideGlobal ∧ ¬ SoundLayout wideGlobal ∧
    ∃ formatted : Text, formatted.length ≤ payloadCapacity wideGlobal.maxRecordSize ∧
      formatted ≠ [] ∧
      ∀ slot : BasicRecordSlot wideGlobal.maxRecordSize, ∃ slot',
        writeRecordSlotUnlimited slot .drop (.text formatted : Formatting Unit) =
          some (slot', .ok .written) ∧ slot'.message = [] := by
  have hcapacity : 2 ^ 32 ≤ payloadCapacity wideGlobal.maxRecordSize := by decide
  obtain ⟨formatted, hlength⟩ : ∃ formatted : Text, formatted.length = 2 ^ 32 :=
    ⟨_, List.length_replicate (a := 0)⟩
  refine ⟨admitted_wide, ?_, formatted, ?_, ?_, ?_⟩
  · intro hsound
    have hlossless := hsound.payloadSize (2 ^ 32) hcapacity
    rw [Nat.mod_self] at hlossless
    contradiction
  · rw [hlength]
    exact hcapacity
  · apply List.ne_nil_of_length_pos
    rw [hlength]
    decide
  · intro slot
    exact message_of_wrapped slot hcapacity .drop hlength

end Unlog.Emit
