import Unlog.Render.Time

/-! # Clock arithmetic on `int64_t`

`resolve_runtime_time_context` once more, with every signed operation checked: one that
leaves the range has no result. -/

namespace Unlog.Render

/-- The result of a signed 64-bit operation. -/
def checkedInt64 (n : ℤ) : Option ℤ := if FitsInt64 n then some n else none

def checkedMillisPart (timestamp : ℤ) : Option ℕ :=
  let ms := timestamp.tdiv 1000000
  (checkedInt64 (ms.tmod 1000 + 1000)).map fun sum => (sum.tmod 1000).toNat

def checkedWallClock (localtime : ℤ → Tm) (sampleSystem : ℤ) (context : TimeContext) :
    Option TimeContext :=
  (checkedMillisPart sampleSystem).map fun millis =>
    { context with tm := localTime localtime sampleSystem, millis := millis }

def checkedResolve (localtime : ℤ → Tm) (needsWallClock needsElapsed : Bool)
    (anchors : StartupAnchors) (timestamp : UInt64) (clockType : ClockType) :
    Option TimeContext :=
  let context : TimeContext := {}
  if !(needsWallClock || needsElapsed) then some context
  else
    match clockType with
    | .system =>
      let systemTicks := ticksToNs timestamp
      (if needsWallClock then checkedWallClock localtime systemTicks context
        else some context).bind fun context =>
      if needsElapsed then
        (checkedInt64 (systemTicks - anchors.systemNs)).map context.setElapsed
      else some context
    | .steady =>
      let steadyTicks := ticksToNs timestamp
      (checkedInt64 (steadyTicks - anchors.steadyNs)).bind fun elapsed =>
      (if needsWallClock then
        (checkedInt64 (anchors.systemNs + elapsed)).bind fun sampleSystem =>
          checkedWallClock localtime sampleSystem context
        else some context).map fun context =>
      if needsElapsed then context.setElapsed elapsed else context

/-- The sums and differences of the branch that is taken are values of `int64_t`. -/
def InRange (needsWallClock needsElapsed : Bool) (anchors : StartupAnchors)
    (timestamp : UInt64) : ClockType → Prop
  | .system => needsElapsed = true → FitsInt64 (ticksToNs timestamp - anchors.systemNs)
  | .steady => (needsWallClock || needsElapsed) = true →
    FitsInt64 (ticksToNs timestamp - anchors.steadyNs) ∧
      (needsWallClock = true →
        FitsInt64 (anchors.systemNs + (ticksToNs timestamp - anchors.steadyNs)))

/-- `ms % 1000` is between -999 and 999. -/
theorem checkedMillisPart_eq (timestamp : ℤ) :
    checkedMillisPart timestamp = some (millisPart timestamp) := by
  have hfits : FitsInt64 ((timestamp.tdiv 1000000).tmod 1000 + 1000) := by
    have hlo := Int.lt_tmod_of_pos (timestamp.tdiv 1000000) (show (0 : ℤ) < 1000 by decide)
    have hhi := Int.tmod_lt_of_pos (timestamp.tdiv 1000000) (show (0 : ℤ) < 1000 by decide)
    unfold FitsInt64
    omega
  simp only [checkedMillisPart, checkedInt64, if_pos hfits, Option.map_some, millisPart]

theorem checkedWallClock_eq (localtime : ℤ → Tm) (sampleSystem : ℤ) (context : TimeContext) :
    checkedWallClock localtime sampleSystem context =
      some (context.setWallClock localtime sampleSystem) := by
  rw [checkedWallClock, checkedMillisPart_eq, Option.map_some, TimeContext.setWallClock]

section Resolve

variable (localtime : ℤ → Tm) (needsWallClock needsElapsed : Bool) (anchors : StartupAnchors)
  (timestamp : UInt64) (clockType : ClockType)

/-- In range, the checked computation is the unchecked one. -/
theorem checkedResolve_of_inRange
    (h : InRange needsWallClock needsElapsed anchors timestamp clockType) :
    checkedResolve localtime needsWallClock needsElapsed anchors timestamp clockType =
      some (resolveRuntimeTimeContext localtime needsWallClock needsElapsed anchors timestamp
        clockType) := by
  cases clockType with
  | system =>
      cases needsElapsed with
      | false => cases needsWallClock <;>
          simp [checkedResolve, resolveRuntimeTimeContext, checkedWallClock_eq]
      | true =>
          have helapsed : FitsInt64 (ticksToNs timestamp - anchors.systemNs) := h rfl
          cases needsWallClock <;>
            simp [checkedResolve, resolveRuntimeTimeContext, checkedWallClock_eq, checkedInt64,
              if_pos helapsed]
  | steady =>
      cases needsWallClock with
      | false =>
          cases needsElapsed with
          | false => simp [checkedResolve, resolveRuntimeTimeContext]
          | true =>
              obtain ⟨helapsed, -⟩ := h rfl
              simp [checkedResolve, resolveRuntimeTimeContext, checkedInt64, if_pos helapsed]
      | true =>
          obtain ⟨helapsed, hsample⟩ := h (by simp)
          cases needsElapsed <;>
            simp [checkedResolve, resolveRuntimeTimeContext, checkedWallClock_eq, checkedInt64,
              if_pos helapsed, if_pos (hsample rfl)]

theorem checkedResolve_isSome_iff :
    (checkedResolve localtime needsWallClock needsElapsed anchors timestamp
      clockType).isSome = true ↔
      InRange needsWallClock needsElapsed anchors timestamp clockType := by
  constructor
  · intro hsome
    cases clockType with
    | system =>
        intro hneeds
        subst hneeds
        by_contra helapsed
        cases needsWallClock <;>
          simp [checkedResolve, checkedWallClock_eq, checkedInt64, if_neg helapsed] at hsome
    | steady =>
        intro hneeds
        by_cases helapsed : FitsInt64 (ticksToNs timestamp - anchors.steadyNs)
        · refine ⟨helapsed, fun hwall => ?_⟩
          subst hwall
          by_contra hsample
          simp [checkedResolve, checkedInt64, if_pos helapsed, if_neg hsample] at hsome
        · simp [checkedResolve, hneeds, checkedInt64, if_neg helapsed] at hsome
  · intro h
    rw [checkedResolve_of_inRange localtime needsWallClock needsElapsed anchors timestamp
      clockType h, Option.isSome_some]

end Resolve

end Unlog.Render
