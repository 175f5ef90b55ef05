import Unlog.Types

/-! Timestamps on the consumer side: decoding, calendar fields, and elapsed text.
Durations are counts of nanoseconds; `system_clock::duration` is nanoseconds. -/

namespace Unlog.Render

/-- The fields of `std::tm` that a pattern can show. -/
structure Tm where
  tmHour : ℕ := 0
  tmMin : ℕ := 0
  tmSec : ℕ := 0
  deriving DecidableEq, Repr

/-- A value of `int64_t`. -/
def FitsInt64 (n : ℤ) : Prop := -2 ^ 63 ≤ n ∧ n < 2 ^ 63

instance (n : ℤ) : Decidable (FitsInt64 n) := inferInstanceAs (Decidable (_ ∧ _))

/-- `numeric_limits<int64_t>::max()`. -/
def maxTicks : ℕ := 2 ^ 63 - 1

def ticksToNs (ticks : UInt64) : ℤ :=
  if maxTicks < ticks.toNat then maxTicks else ticks.toNat

/-- `system_clock::to_time_t`. -/
def toTimeT (timestamp : ℤ) : ℤ := timestamp.tdiv 1000000000

/-- `localtime_r` belongs to the C library and depends on the time zone. -/
def localTime (localtime : ℤ → Tm) (now : ℤ) : Tm := localtime (toTimeT now)

def millisPart (timestamp : ℤ) : ℕ :=
  let ms := timestamp.tdiv 1000000
  let normalized := (ms.tmod 1000 + 1000).tmod 1000
  normalized.toNat

/-- `{}` of a natural number. -/
def decimal (n : ℕ) : Text := (Nat.toDigits 10 n).map Char.toUInt8

/-- `{:0widthd}` of a natural number. -/
def paddedDecimal (width n : ℕ) : Text :=
  List.replicate (width - (decimal n).length) '0'.toUInt8 ++ decimal n

/-- `append_decimal`: `std::to_chars` of a signed value. -/
def signedDecimal (value : ℤ) : Text :=
  if value < 0 then '-'.toUInt8 :: decimal value.natAbs else decimal value.natAbs

/-- The text `format_elapsed` hands to `format_to_n`, before any cut. -/
def elapsedText (elapsed : ℤ) : Text :=
  let elapsed := if elapsed < 0 then 0 else elapsed
  let ms := elapsed.toNat / 1000000
  let hours := ms / (60 * 60 * 1000)
  let minutes := ms / (60 * 1000) % 60
  let seconds := ms / 1000 % 60
  let millis := ms % 1000
  if 0 < hours then
    ascii "+" ++ decimal hours ++ ascii "h" ++ paddedDecimal 2 minutes ++ ascii "m" ++
      paddedDecimal 2 seconds ++ ascii "." ++ paddedDecimal 3 millis ++ ascii "s"
  else if 0 < minutes then
    ascii "+" ++ decimal minutes ++ ascii "m" ++ paddedDecimal 2 seconds ++ ascii "." ++
      paddedDecimal 3 millis ++ ascii "s"
  else ascii "+" ++ decimal (ms / 1000) ++ ascii "." ++ paddedDecimal 3 millis ++ ascii "s"

/-- Writes into `output` and returns it with the number of bytes kept. -/
def formatElapsed (elapsed : ℤ) (output : Text) : Text × ℕ :=
  let text := elapsedText elapsed
  (text.take output.length ++ output.drop text.length, min text.length output.length)

structure TimeContext where
  tm : Tm := {}
  millis : ℕ := 0
  elapsedStorage : Text := List.replicate 32 0
  elapsedSize : ℕ := 0
  deriving DecidableEq, Repr

def TimeContext.elapsed (context : TimeContext) : Text :=
  context.elapsedStorage.take context.elapsedSize

/-- The startup anchors of a runtime; `startup_system_time` counts the same nanoseconds
as `startup_system_ns`. -/
structure StartupAnchors where
  steadyNs : ℤ
  systemNs : ℤ
  deriving DecidableEq, Repr

/-- Store the calendar fields of one instant. -/
def TimeContext.setWallClock (localtime : ℤ → Tm) (sampleSystem : ℤ) (context : TimeContext) :
    TimeContext :=
  { context with tm := localTime localtime sampleSystem, millis := millisPart sampleSystem }

/-- Store the elapsed text. -/
def TimeContext.setElapsed (elapsed : ℤ) (context : TimeContext) : TimeContext :=
  let written := formatElapsed elapsed context.elapsedStorage
  { context with elapsedStorage := written.1, elapsedSize := written.2 }

def resolveRuntimeTimeContext (localtime : ℤ → Tm) (needsWallClock needsElapsed : Bool)
    (anchors : StartupAnchors) (timestamp : UInt64) (clockType : ClockType) : TimeContext :=
  let context : TimeContext := {}
  if !(needsWallClock || needsElapsed) then context
  else
    match clockType with
    | .system =>
      let systemTicks := ticksToNs timestamp
      let context := if needsWallClock then context.setWallClock localtime systemTicks else context
      if needsElapsed then context.setElapsed (systemTicks - anchors.systemNs) else context
    | .steady =>
      let steadyTicks := ticksToNs timestamp
      let elapsed := steadyTicks - anchors.steadyNs
      let context :=
        if needsWallClock then context.setWallClock localtime (anchors.systemNs + elapsed)
        else context
      if needsElapsed then context.setElapsed elapsed else context

/-- What each clock means by the wall-clock instant of a timestamp. -/
def wallClockInstant (anchors : StartupAnchors) (timestamp : UInt64) : ClockType → ℤ
  | .system => ticksToNs timestamp
  | .steady => anchors.systemNs + (ticksToNs timestamp - anchors.steadyNs)

/-- What each clock means by the time elapsed since startup. -/
def elapsedSince (anchors : StartupAnchors) (timestamp : UInt64) : ClockType → ℤ
  | .system => ticksToNs timestamp - anchors.systemNs
  | .steady => ticksToNs timestamp - anchors.steadyNs

/-- The resolved context depends on what is asked for only through the fields asked for. -/
theorem resolveRuntimeTimeContext_eq (localtime : ℤ → Tm) (needsWallClock needsElapsed : Bool)
    (anchors : StartupAnchors) (timestamp : UInt64) (clockType : ClockType) :
    resolveRuntimeTimeContext localtime needsWallClock needsElapsed anchors timestamp clockType =
      let context : TimeContext := {}
      let context :=
        if needsWallClock then
          context.setWallClock localtime (wallClockInstant anchors timestamp clockType)
        else context
      if needsElapsed then context.setElapsed (elapsedSince anchors timestamp clockType)
      else context := by
  cases needsWallClock <;> cases needsElapsed <;> cases clockType <;> rfl

section Resolve

variable (localtime : ℤ → Tm) (needsWallClock needsElapsed : Bool) (anchors : StartupAnchors)
  (timestamp : UInt64) (clockType : ClockType)

theorem resolve_tm (h : needsWallClock = true) :
    (resolveRuntimeTimeContext localtime needsWallClock needsElapsed anchors timestamp
      clockType).tm = localTime localtime (wallClockInstant anchors timestamp clockType) := by
  subst h
  rw [resolveRuntimeTimeContext_eq]
  cases needsElapsed <;> rfl

theorem resolve_millis (h : needsWallClock = true) :
    (resolveRuntimeTimeContext localtime needsWallClock needsElapsed anchors timestamp
      clockType).millis = millisPart (wallClockInstant anchors timestamp clockType) := by
  subst h
  rw [resolveRuntimeTimeContext_eq]
  cases needsElapsed <;> rfl

theorem resolve_elapsed (h : needsElapsed = true) :
    (resolveRuntimeTimeContext localtime needsWallClock needsElapsed anchors timestamp
      clockType).elapsed = (elapsedText (elapsedSince anchors timestamp clockType)).take 32 := by
  subst h
  rw [resolveRuntimeTimeContext_eq]
  have htake : ∀ elapsed : ℤ, (((elapsedText elapsed).take 32 ++
      (List.replicate 32 (0 : UInt8)).drop (elapsedText elapsed).length).take
        (min (elapsedText elapsed).length 32)) = (elapsedText elapsed).take 32 := by
    intro elapsed
    rw [List.take_append_of_le_length (by simp [Nat.min_comm])]
    simp [List.take_take, Nat.min_comm]
  cases needsWallClock <;> exact htake _

end Resolve

end Unlog.Render
