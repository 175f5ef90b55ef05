import Unlog.Emit.Slot

/-! # The record slot and what a log call writes into it -/

namespace Unlog.Emit

/-! ## Sizes -/

def recordAlignment : ℕ := 8

/-- `align_record_size` on a 64-bit `size_t`: round up and clear the low bits. -/
def alignRecordSize (size : ℕ) : ℕ :=
  (size + (recordAlignment - 1)) % 2 ^ 64 / recordAlignment * recordAlignment

/-- `sizeof(record_slot_header)`: three words, two 32-bit numbers, two bytes and padding. -/
def recordSlotHeaderSize : ℕ := 40

def recordSlotStorageSize (maxRecordSize : ℕ) : ℕ := alignRecordSize maxRecordSize

def payloadCapacityForRecordSlotLimit (maxRecordSize : ℕ) : Option ℕ :=
  let storageSize := recordSlotStorageSize maxRecordSize
  let headerSize := alignRecordSize recordSlotHeaderSize
  if storageSize < headerSize then none else some (storageSize - headerSize)

def payloadCapacity (maxRecordSize : ℕ) : ℕ :=
  (payloadCapacityForRecordSlotLimit maxRecordSize).getD 0

def payloadStorageSize (maxRecordSize : ℕ) : ℕ :=
  if payloadCapacity maxRecordSize = 0 then 1 else payloadCapacity maxRecordSize

theorem payloadCapacity_le (maxRecordSize : ℕ) :
    payloadCapacity maxRecordSize ≤ payloadStorageSize maxRecordSize := by
  unfold payloadStorageSize
  split <;> omega

/-! ## Payloads -/

/-- The bytes of `std::array<char, payload_storage_size>`. -/
def Payload (maxRecordSize : ℕ) : Type :=
  { bytes : Text // bytes.length = payloadStorageSize maxRecordSize }

instance (maxRecordSize : ℕ) : DecidableEq (Payload maxRecordSize) :=
  inferInstanceAs (DecidableEq (Subtype _))

namespace Payload

variable {maxRecordSize : ℕ}

def bytes (payload : Payload maxRecordSize) : Text := payload.1

theorem length_bytes (payload : Payload maxRecordSize) :
    payload.bytes.length = payloadStorageSize maxRecordSize := payload.2

/-- The bytes from `offset` on replaced by `data`, which fits. -/
def overwrite (payload : Payload maxRecordSize) (offset : ℕ) (data : Text)
    (h : offset + data.length ≤ payloadStorageSize maxRecordSize) : Payload maxRecordSize :=
  ⟨payload.bytes.take offset ++ data ++ payload.bytes.drop (offset + data.length), by
    have hlength := payload.length_bytes
    simp only [List.length_append, List.length_take, List.length_drop]
    omega⟩

/-- `memcpy` to an offset of the payload; `none` is a write outside the array. -/
def memcpy (payload : Payload maxRecordSize) (offset : ℕ) (data : Text) :
    Option (Payload maxRecordSize) :=
  if h : offset + data.length ≤ payloadStorageSize maxRecordSize then
    some (payload.overwrite offset data h)
  else none

theorem memcpy_of_le (payload : Payload maxRecordSize) {offset : ℕ} {data : Text}
    (h : offset + data.length ≤ payloadStorageSize maxRecordSize) :
    payload.memcpy offset data = some (payload.overwrite offset data h) :=
  dif_pos h

/-- The bytes up to the end of the copied ones. -/
theorem take_overwrite (payload : Payload maxRecordSize) {offset : ℕ} {data : Text}
    (h : offset + data.length ≤ payloadStorageSize maxRecordSize) :
    (payload.overwrite offset data h).bytes.take (offset + data.length) =
      payload.bytes.take offset ++ data := by
  have hlength := payload.length_bytes
  apply List.take_left'
  rw [List.length_append, List.length_take]
  omega

theorem overwrite_getElem? (payload : Payload maxRecordSize) {offset i : ℕ} {data : Text}
    (h : offset + data.length ≤ payloadStorageSize maxRecordSize)
    (hi : offset + data.length ≤ i) :
    (payload.overwrite offset data h).bytes[i]? = payload.bytes[i]? := by
  have hlength := payload.length_bytes
  have hfront : (payload.bytes.take offset ++ data).length = offset + data.length := by
    rw [List.length_append, List.length_take]
    omega
  change (payload.bytes.take offset ++ data ++ payload.bytes.drop _)[i]? = _
  rw [List.getElem?_append_right (by omega), List.getElem?_drop, hfront]
  congr 1
  omega

end Payload

/-! ## Slots -/

/-- `basic_record_slot<MaxRecordSize>`. -/
structure BasicRecordSlot (maxRecordSize : ℕ) where
  header : RecordSlotHeader
  payload : Payload maxRecordSize
  deriving DecidableEq

namespace BasicRecordSlot

variable {maxRecordSize : ℕ}

/-- The constructor: `payload` is what the storage held. -/
def construct (payload : Payload maxRecordSize) (route : Option ℕ) (level : LogLevel)
    (timestamp : UInt64) (sourceFile : Option ℕ) (sourceLine : ℤ) :
    BasicRecordSlot maxRecordSize where
  header :=
    { route := route
      timestamp := timestamp
      sourceFile := sourceFile
      sourceLine := sourceLine
      payloadSize := 0
      level := encodeLevel level
      truncated := false }
  payload := payload

def capacity (_ : BasicRecordSlot maxRecordSize) : ℕ := payloadCapacity maxRecordSize

def message (slot : BasicRecordSlot maxRecordSize) : Text :=
  slot.payload.bytes.take slot.header.payloadSize

end BasicRecordSlot

/-! ## Formatting -/

inductive RecordSlotWriteResult where
  | written | dropped | truncated
  deriving DecidableEq, Repr

/-- What the arguments' formatters do: produce a text, or throw after a part of it. -/
inductive Formatting (E : Type) where
  | text (formatted : Text)
  | throws (part : Text) (error : E)
  deriving DecidableEq, Repr

section Write

variable {E : Type} {maxRecordSize : ℕ}

/-- `fmt::format_to_n`: at most `n` characters are stored and the full size is returned. -/
def formatToN (payload : Payload maxRecordSize) (n : ℕ) :
    Formatting E → Option (Payload maxRecordSize × Except E ℕ)
  | .text formatted =>
    (payload.memcpy 0 (formatted.take n)).map fun payload => (payload, .ok formatted.length)
  | .throws part error =>
    (payload.memcpy 0 (part.take n)).map fun payload => (payload, .error error)

def recordSlotTruncateMarker : Text := ascii "[truncated]"

def writeTruncateMarker (payload : Payload maxRecordSize) (size : ℕ) :
    Option (Payload maxRecordSize) :=
  if size = 0 then some payload
  else if size ≤ recordSlotTruncateMarker.length then
    payload.memcpy 0 (recordSlotTruncateMarker.take size)
  else
    let markerOffset := size - recordSlotTruncateMarker.length
    payload.memcpy markerOffset recordSlotTruncateMarker

/-- `write_record_slot`; `none` is a write outside the payload, an error is thrown. -/
def writeRecordSlot (slot : BasicRecordSlot maxRecordSize) (overflowPolicy : OverflowPolicy)
    (payloadLimit : ℕ) (formatting : Formatting E) :
    Option (BasicRecordSlot maxRecordSize × Except E RecordSlotWriteResult) :=
  let effectiveLimit := min payloadLimit slot.capacity
  match formatToN slot.payload effectiveLimit formatting with
  | none => none
  | some (payload, .error error) => some ({ slot with payload }, .error error)
  | some (payload, .ok requiredSize) =>
    if requiredSize ≤ effectiveLimit then
      some (⟨{ slot.header with payloadSize := requiredSize % 2 ^ 32 }, payload⟩, .ok .written)
    else if overflowPolicy = .drop then
      some (⟨{ slot.header with payloadSize := 0 }, payload⟩, .ok .dropped)
    else
      (writeTruncateMarker payload effectiveLimit).map fun payload =>
        (⟨{ slot.header with
          payloadSize := effectiveLimit % 2 ^ 32
          truncated := true }, payload⟩, .ok .truncated)

/-- The overload without a limit. -/
def writeRecordSlotUnlimited (slot : BasicRecordSlot maxRecordSize)
    (overflowPolicy : OverflowPolicy) (formatting : Formatting E) :
    Option (BasicRecordSlot maxRecordSize × Except E RecordSlotWriteResult) :=
  writeRecordSlot slot overflowPolicy slot.capacity formatting

/-! ## What is stored -/

theorem length_recordSlotTruncateMarker : recordSlotTruncateMarker.length = 11 := rfl

/-- Formatting stays below `n`, and a text that is not thrown away begins the payload. -/
theorem formatToN_text (payload : Payload maxRecordSize) {n : ℕ}
    (hn : n ≤ payloadStorageSize maxRecordSize) (formatted : Text) :
    ∃ payload' : Payload maxRecordSize,
      formatToN payload n (.text formatted : Formatting E) =
        some (payload', .ok formatted.length) ∧
      payload'.bytes.take (min n formatted.length) = formatted.take n ∧
      ∀ i, n ≤ i → payload'.bytes[i]? = payload.bytes[i]? := by
  have hstored : (formatted.take n).length = min n formatted.length := List.length_take
  have hfits : 0 + (formatted.take n).length ≤ payloadStorageSize maxRecordSize := by omega
  refine ⟨payload.overwrite 0 (formatted.take n) hfits, ?_, ?_, ?_⟩
  · rw [formatToN, payload.memcpy_of_le hfits, Option.map_some]
  · simpa [hstored] using payload.take_overwrite hfits
  · intro i hi
    exact payload.overwrite_getElem? hfits (by omega)

theorem formatToN_throws (payload : Payload maxRecordSize) {n : ℕ}
    (hn : n ≤ payloadStorageSize maxRecordSize) (part : Text) (error : E) :
    ∃ payload' : Payload maxRecordSize,
      formatToN payload n (.throws part error) = some (payload', .error error) := by
  have hstored : (part.take n).length = min n part.length := List.length_take
  have hfits : 0 + (part.take n).length ≤ payloadStorageSize maxRecordSize := by omega
  use payload.overwrite 0 (part.take n) hfits
  rw [formatToN, payload.memcpy_of_le hfits, Option.map_some]

/-- The first `size` characters once the marker is written over their end. -/
def marked (size : ℕ) (text : Text) : Text :=
  if 11 < size then text.take (size - 11) ++ recordSlotTruncateMarker
  else recordSlotTruncateMarker.take size

theorem length_marked {size : ℕ} {text : Text} (h : size ≤ text.length) :
    (marked size text).length = size := by
  unfold marked
  split
  · rw [List.length_append, List.length_take, length_recordSlotTruncateMarker]
    omega
  · rw [List.length_take, length_recordSlotTruncateMarker]
    omega

/-- Characters from `size` on do not matter. -/
theorem marked_take {size : ℕ} (text : Text) : marked size (text.take size) = marked size text := by
  unfold marked
  rw [List.take_take, min_eq_left (Nat.sub_le size 11)]

theorem writeTruncateMarker_spec (payload : Payload maxRecordSize) {size : ℕ}
    (hsize : size ≤ payloadStorageSize maxRecordSize) :
    ∃ payload', writeTruncateMarker payload size = some payload' ∧
      payload'.bytes.take size = marked size payload.bytes ∧
      ∀ i, size ≤ i → payload'.bytes[i]? = payload.bytes[i]? := by
  have hmarker := length_recordSlotTruncateMarker
  unfold writeTruncateMarker marked
  by_cases hzero : size = 0
  · subst hzero
    exact ⟨payload, if_pos rfl, by simp, fun _ _ => rfl⟩
  rw [if_neg hzero]
  by_cases hshort : size ≤ recordSlotTruncateMarker.length
  · have hdata : (recordSlotTruncateMarker.take size).length = size :=
      List.length_take_of_le hshort
    have hfits : 0 + (recordSlotTruncateMarker.take size).length ≤
        payloadStorageSize maxRecordSize := by omega
    rw [if_pos hshort, if_neg (by omega), payload.memcpy_of_le hfits]
    refine ⟨_, rfl, ?_, ?_⟩
    · simpa [hdata] using payload.take_overwrite hfits
    · intro i hi
      exact payload.overwrite_getElem? hfits (by omega)
  · have hend : size - recordSlotTruncateMarker.length + recordSlotTruncateMarker.length =
        size := Nat.sub_add_cancel (by omega)
    have hfits : size - recordSlotTruncateMarker.length + recordSlotTruncateMarker.length ≤
        payloadStorageSize maxRecordSize := by omega
    rw [if_neg hshort, if_pos (by omega), payload.memcpy_of_le hfits]
    refine ⟨_, rfl, ?_, ?_⟩
    · have hstored := payload.take_overwrite hfits
      rwa [hend] at hstored
    · intro i hi
      exact payload.overwrite_getElem? hfits (by omega)

/-! ## What a write leaves -/

/-- The three ways in which a text is written with `limit` characters of room. -/
inductive Wrote (limit : ℕ) (overflowPolicy : OverflowPolicy) (formatted : Text)
    (slot : BasicRecordSlot maxRecordSize) :
    BasicRecordSlot maxRecordSize → RecordSlotWriteResult → Prop
  | written {payload : Payload maxRecordSize} :
      formatted.length ≤ limit → payload.bytes.take formatted.length = formatted →
      (∀ i, limit ≤ i → payload.bytes[i]? = slot.payload.bytes[i]?) →
      Wrote limit overflowPolicy formatted slot
        ⟨{ slot.header with payloadSize := formatted.length % 2 ^ 32 }, payload⟩ .written
  | dropped {payload : Payload maxRecordSize} :
      limit < formatted.length → overflowPolicy = .drop →
      (∀ i, limit ≤ i → payload.bytes[i]? = slot.payload.bytes[i]?) →
      Wrote limit overflowPolicy formatted slot
        ⟨{ slot.header with payloadSize := 0 }, payload⟩ .dropped
  | truncated {payload : Payload maxRecordSize} :
      limit < formatted.length → overflowPolicy = .truncate →
      payload.bytes.take limit = marked limit formatted →
      (∀ i, limit ≤ i → payload.bytes[i]? = slot.payload.bytes[i]?) →
      Wrote limit overflowPolicy formatted slot
        ⟨{ slot.header with payloadSize := limit % 2 ^ 32, truncated := true }, payload⟩ .truncated

theorem effectiveLimit_le (payloadLimit : ℕ) (slot : BasicRecordSlot maxRecordSize) :
    min payloadLimit slot.capacity ≤ payloadStorageSize maxRecordSize :=
  (min_le_right _ _).trans (payloadCapacity_le maxRecordSize)

theorem writeRecordSlot_text (slot : BasicRecordSlot maxRecordSize)
    (overflowPolicy : OverflowPolicy) (payloadLimit : ℕ) (formatted : Text) :
    ∃ slot' result,
      writeRecordSlot slot overflowPolicy payloadLimit (.text formatted : Formatting E) =
        some (slot', .ok result) ∧
      Wrote (min payloadLimit slot.capacity) overflowPolicy formatted slot slot' result := by
  have hroom := effectiveLimit_le payloadLimit slot
  unfold writeRecordSlot
  generalize min payloadLimit slot.capacity = limit at hroom
  obtain ⟨stored, hformat, hprefix, hbeyond⟩ :=
    formatToN_text (E := E) slot.payload hroom formatted
  simp only [hformat]
  by_cases hfits : formatted.length ≤ limit
  · rw [if_pos hfits]
    rw [min_eq_right hfits, List.take_of_length_le hfits] at hprefix
    exact ⟨_, _, rfl, .written hfits hprefix hbeyond⟩
  rw [if_neg hfits]
  have hlong : limit < formatted.length := Nat.lt_of_not_le hfits
  cases overflowPolicy with
  | drop => exact ⟨_, _, if_pos rfl, .dropped hlong rfl hbeyond⟩
  | truncate =>
      obtain ⟨ended, hmarker, hmarked, hkept⟩ := writeTruncateMarker_spec stored hroom
      rw [if_neg (by decide), hmarker, Option.map_some]
      have hmessage : ended.bytes.take limit = marked limit formatted := by
        rw [min_eq_left hlong.le] at hprefix
        rw [hmarked, ← marked_take stored.bytes, hprefix, marked_take]
      exact ⟨_, _, rfl, .truncated hlong rfl hmessage fun i hi =>
        (hkept i hi).trans (hbeyond i hi)⟩

theorem writeRecordSlot_throws (slot : BasicRecordSlot maxRecordSize)
    (overflowPolicy : OverflowPolicy) (payloadLimit : ℕ) (part : Text) (error : E) :
    ∃ payload,
      writeRecordSlot slot overflowPolicy payloadLimit (.throws part error) =
        some (⟨slot.header, payload⟩, .error error) := by
  obtain ⟨payload, hformat⟩ :=
    formatToN_throws slot.payload (effectiveLimit_le payloadLimit slot) part error
  use payload
  simp only [writeRecordSlot, hformat]

/-- A write of a text with `limit` characters of room is exact and stays below `limit`. -/
structure WriteContract (limit : ℕ) (overflowPolicy : OverflowPolicy) (formatted : Text)
    (slot slot' : BasicRecordSlot maxRecordSize) (result : RecordSlotWriteResult) : Prop where
  fits : formatted.length ≤ limit → result = .written ∧ slot'.message = formatted
  drops : limit < formatted.length → overflowPolicy = .drop →
    result = .dropped ∧ slot'.message = [] ∧ slot'.header.truncated = false
  truncates : limit < formatted.length → overflowPolicy = .truncate →
    result = .truncated ∧ slot'.message.length = limit ∧ slot'.message = marked limit formatted
  payloadSize_le : slot'.header.payloadSize ≤ limit
  beyond : ∀ i, limit ≤ i → slot'.payload.bytes[i]? = slot.payload.bytes[i]?
  header : slot'.header =
    { slot.header with
      payloadSize := slot'.header.payloadSize
      truncated := slot'.header.truncated }

theorem Wrote.contract {limit : ℕ} {overflowPolicy : OverflowPolicy} {formatted : Text}
    {slot slot' : BasicRecordSlot maxRecordSize} {result : RecordSlotWriteResult}
    (h : Wrote limit overflowPolicy formatted slot slot' result) (hlimit : limit < 2 ^ 32)
    (hfresh : slot.header.truncated = false) :
    WriteContract limit overflowPolicy formatted slot slot' result := by
  cases h with
  | written hfits hstored hbeyond =>
      have hsize : formatted.length % 2 ^ 32 = formatted.length :=
        Nat.mod_eq_of_lt (by omega)
      rw [hsize]
      exact
        { fits := fun _ => ⟨rfl, hstored⟩
          drops := fun hlong => absurd hfits (by omega)
          truncates := fun hlong => absurd hfits (by omega)
          payloadSize_le := hfits
          beyond := hbeyond
          header := rfl }
  | dropped hlong hpolicy hbeyond =>
      subst hpolicy
      exact
        { fits := fun hfits => absurd hfits (by omega)
          drops := fun _ _ => ⟨rfl, List.take_zero, hfresh⟩
          truncates := fun _ hpolicy => by contradiction
          payloadSize_le := Nat.zero_le limit
          beyond := hbeyond
          header := rfl }
  | truncated hlong hpolicy hstored hbeyond =>
      subst hpolicy
      rw [Nat.mod_eq_of_lt hlimit]
      exact
        { fits := fun hfits => absurd hfits (by omega)
          drops := fun _ hpolicy => by contradiction
          truncates := fun _ _ =>
            ⟨rfl, (congrArg List.length hstored).trans (length_marked hlong.le), hstored⟩
          payloadSize_le := le_rfl
          beyond := hbeyond
          header := rfl }

/-- Every text is written, dropped or truncated inside the payload. -/
theorem writeRecordSlot_exact (payload : Payload maxRecordSize) (route : Option ℕ)
    (level : LogLevel) (timestamp : UInt64) (sourceFile : Option ℕ) (sourceLine : ℤ)
    (overflowPolicy : OverflowPolicy) (payloadLimit : ℕ) (formatted : Text)
    (hlimit : min payloadLimit (payloadCapacity maxRecordSize) < 2 ^ 32) :
    let slot := BasicRecordSlot.construct payload route level timestamp sourceFile sourceLine
    ∃ slot' result,
      writeRecordSlot slot overflowPolicy payloadLimit (.text formatted : Formatting E) =
        some (slot', .ok result) ∧
      WriteContract (min payloadLimit slot.capacity) overflowPolicy formatted slot slot'
        result := by
  intro slot
  obtain ⟨slot', result, hwrite, hwrote⟩ :=
    writeRecordSlot_text (E := E) slot overflowPolicy payloadLimit formatted
  exact ⟨slot', result, hwrite, hwrote.contract hlimit rfl⟩

end Write

/-- A slot of 64 bytes has room for 24 characters. -/
def demoPayload : Payload 64 := ⟨List.replicate 24 0, by decide⟩

theorem truncated_at_twenty :
    ∃ slot' : BasicRecordSlot 64,
      writeRecordSlot (.construct demoPayload (some 0) .warn 123 none 0) .truncate 20
        (.text (ascii "connection refused by peer") : Formatting Unit) =
          some (slot', .ok .truncated) ∧
      slot'.message = ascii "connectio[truncated]" := by
  obtain ⟨slot', result, hwrite, hcontract⟩ :=
    writeRecordSlot_exact (E := Unit) demoPayload (some 0) .warn 123 none 0 .truncate 20
      (ascii "connection refused by peer") (by decide)
  obtain ⟨rfl, -, hmessage⟩ := hcontract.truncates (by decide) rfl
  exact ⟨slot', hwrite, hmessage⟩

end Unlog.Emit
