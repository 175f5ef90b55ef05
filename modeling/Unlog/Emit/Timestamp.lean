import Unlog.Render.Clock
import Unlog.Render.Elapsed
import Unlog.Emit.CallSite

/-! # Timestamps from the call site to the rendered fields -/

namespace Unlog.Emit

open Pattern Render

/-! ## The two clock modes -/

section Modes

variable {anchors : StartupAnchors} {steady system : ℤ}

/-- Both modes resolve the readings of one instant to the same fields. -/
theorem resolve_steady_eq_system (localtime : ℤ → Tm) (needsWallClock needsElapsed : Bool)
    (hsteady : ticksToNs (clockNowNs steady) = steady)
    (hsystem : ticksToNs (clockNowNs system) = system)
    (hsame : system - anchors.systemNs = steady - anchors.steadyNs) :
    resolveRuntimeTimeContext localtime needsWallClock needsElapsed anchors (clockNowNs steady)
        .steady =
      resolveRuntimeTimeContext localtime needsWallClock needsElapsed anchors (clockNowNs system)
        .system := by
  have hinstant : anchors.systemNs + (steady - anchors.steadyNs) = system := by omega
  simp only [resolveRuntimeTimeContext_eq, wallClockInstant, elapsedSince, hsteady, hsystem, hsame,
    hinstant]

/-- What agreement of the modes means, and that neither runs backwards. -/
structure ModesAgree (anchors : StartupAnchors) (steady system : ℤ) : Prop where
  context : ∀ (localtime : ℤ → Tm) (needsWallClock needsElapsed : Bool), ∃ context,
    checkedResolve localtime needsWallClock needsElapsed anchors (clockNowNs steady) .steady =
      some context ∧
    checkedResolve localtime needsWallClock needsElapsed anchors (clockNowNs system) .system =
      some context
  elapsed : ∀ (clockType : ClockType) (now later : ℤ), 0 ≤ now → now ≤ later → later < 2 ^ 63 →
    elapsedSince anchors (clockNowNs now) clockType ≤
      elapsedSince anchors (clockNowNs later) clockType
  instant : ∀ (clockType : ClockType) (now later : ℤ), 0 ≤ now → now ≤ later → later < 2 ^ 63 →
    wallClockInstant anchors (clockNowNs now) clockType ≤
      wallClockInstant anchors (clockNowNs later) clockType

theorem clockModes_agree (hsteadyNs : 0 ≤ anchors.steadyNs ∧ anchors.steadyNs < 2 ^ 63)
    (hsteady : 0 ≤ steady ∧ steady < 2 ^ 63) (hsystem : 0 ≤ system ∧ system < 2 ^ 63)
    (hsame : system - anchors.systemNs = steady - anchors.steadyNs) :
    ModesAgree anchors steady system := by
  have hsteadyTicks := ticksToNs_clockNowNs hsteady
  have hsystemTicks := ticksToNs_clockNowNs hsystem
  constructor
  · intro localtime needsWallClock needsElapsed
    have hin : InRange needsWallClock needsElapsed anchors (clockNowNs steady) .steady := by
      intro _
      rw [hsteadyTicks]
      unfold FitsInt64
      omega
    have hin' : InRange needsWallClock needsElapsed anchors (clockNowNs system) .system := by
      intro _
      rw [hsystemTicks]
      unfold FitsInt64
      omega
    refine ⟨_, checkedResolve_of_inRange _ _ _ _ _ _ hin, ?_⟩
    rw [resolve_steady_eq_system localtime _ _ hsteadyTicks hsystemTicks hsame]
    exact checkedResolve_of_inRange _ _ _ _ _ _ hin'
  · intro clockType now later hnow hle hlater
    have hticks : ticksToNs (clockNowNs now) = now := ticksToNs_clockNowNs ⟨hnow, by omega⟩
    have hticks' : ticksToNs (clockNowNs later) = later :=
      ticksToNs_clockNowNs ⟨by omega, hlater⟩
    cases clockType <;> simp only [elapsedSince, hticks, hticks'] <;> omega
  · intro clockType now later hnow hle hlater
    have hticks : ticksToNs (clockNowNs now) = now := ticksToNs_clockNowNs ⟨hnow, by omega⟩
    have hticks' : ticksToNs (clockNowNs later) = later :=
      ticksToNs_clockNowNs ⟨by omega, hlater⟩
    cases clockType <;> simp only [wallClockInstant, hticks, hticks'] <;> omega

/-- A reading before the start of the runtime. -/
theorem clockModes_agree_early : ModesAgree ⟨500, 2000000000⟩ 200 1999999700 :=
  clockModes_agree (by decide) (by decide) (by decide) (by decide)

end Modes

/-! ## Readings on both sides of the epoch -/

/-- Whole seconds and the rest of the milliseconds make up an instant. -/
theorem seconds_millis_iff (instant : ℤ) :
    toTimeT instant * 1000 + millisPart instant = instant / 1000000 ↔
      0 ≤ instant ∨ 1000000000 ∣ instant := by
  by_cases hsign : 0 ≤ instant
  · simp only [hsign, true_or, iff_true]
    have hms : 0 ≤ instant / 1000000 := by omega
    rw [toTimeT, millisPart, Int.tdiv_eq_ediv_of_nonneg hsign, Int.tdiv_eq_ediv_of_nonneg hsign]
    simp only [Int.tmod_eq_emod_of_nonneg hms]
    rw [Int.tmod_eq_emod_of_nonneg (by omega)]
    omega
  · obtain ⟨before, rfl⟩ : ∃ before : ℤ, instant = -before := ⟨-instant, by omega⟩
    have hbefore : 0 ≤ before := by omega
    have hms : 0 ≤ before / 1000000 := by omega
    rw [toTimeT, millisPart, Int.neg_tdiv, Int.neg_tdiv, Int.tdiv_eq_ediv_of_nonneg hbefore,
      Int.tdiv_eq_ediv_of_nonneg hbefore]
    simp only [Int.neg_tmod, Int.tmod_eq_emod_of_nonneg hms]
    rw [Int.tmod_eq_emod_of_nonneg (by omega)]
    omega

/-- The context resolved for a clock reading: no signed operation leaves the range, the calendar
fields and the milliseconds are those of the instant of the reading, and the elapsed text is that
of its time since startup. -/
structure Resolves (anchors : StartupAnchors) (clockType : ClockType) (now : ℤ)
    (localtime : ℤ → Tm) (needsWallClock needsElapsed : Bool) (context : TimeContext) : Prop where
  inRange : checkedResolve localtime needsWallClock needsElapsed anchors (clockNowNs now)
    clockType = some context
  tm : needsWallClock = true → context.tm = localTime localtime (instantOf anchors now clockType)
  millis : needsWallClock = true → context.millis = millisPart (instantOf anchors now clockType)
  elapsed : needsElapsed = true →
    context.elapsed = elapsedText (sinceStartup anchors now clockType)

/-- What decoding and resolving keep of a clock reading. -/
structure Survives (anchors : StartupAnchors) (clockType : ClockType) (now : ℤ) : Prop where
  decoded : ticksToNs (clockNowNs now) = now
  instant : wallClockInstant anchors (clockNowNs now) clockType = instantOf anchors now clockType
  elapsed : elapsedSince anchors (clockNowNs now) clockType = sinceStartup anchors now clockType
  resolved : ∀ (localtime : ℤ → Tm) (needsWallClock needsElapsed : Bool), ∃ context,
    Resolves anchors clockType now localtime needsWallClock needsElapsed context
  rendered : toTimeT (wallClockInstant anchors (clockNowNs now) clockType) * 1000 +
      millisPart (wallClockInstant anchors (clockNowNs now) clockType) =
    wallClockInstant anchors (clockNowNs now) clockType / 1000000

/-- The reading is not before its epoch, the anchors keep it in range, and the wall-clock
instant of a steady reading is not before 1970, whole seconds apart. -/
def Representable (anchors : StartupAnchors) (clockType : ClockType) (now : ℤ) : Prop :=
  0 ≤ now ∧
    match clockType with
    | .system => FitsInt64 (now - anchors.systemNs)
    | .steady =>
      FitsInt64 (now - anchors.steadyNs) ∧
      FitsInt64 (anchors.systemNs + (now - anchors.steadyNs)) ∧
      (0 ≤ anchors.systemNs + (now - anchors.steadyNs) ∨
        1000000000 ∣ anchors.systemNs + (now - anchors.steadyNs))

theorem fitsInt64_sinceStartup {anchors : StartupAnchors} {clockType : ClockType} {now : ℤ}
    (h : Representable anchors clockType now) : FitsInt64 (sinceStartup anchors now clockType) := by
  cases clockType with
  | system => exact h.2
  | steady => exact h.2.1

theorem inRange_of_representable {anchors : StartupAnchors} {clockType : ClockType} {now : ℤ}
    (hdecoded : ticksToNs (clockNowNs now) = now) (h : Representable anchors clockType now)
    (needsWallClock needsElapsed : Bool) :
    InRange needsWallClock needsElapsed anchors (clockNowNs now) clockType := by
  cases clockType with
  | system =>
      intro _
      rw [hdecoded]
      exact h.2
  | steady =>
      intro _
      rw [hdecoded]
      exact ⟨h.2.1, fun _ => h.2.2.1⟩

/-- A reading that decoding keeps is resolved to its own fields. -/
theorem exists_resolves {anchors : StartupAnchors} {clockType : ClockType} {now : ℤ}
    (hinstant : wallClockInstant anchors (clockNowNs now) clockType =
      instantOf anchors now clockType)
    (helapsed : elapsedSince anchors (clockNowNs now) clockType =
      sinceStartup anchors now clockType)
    (hfits : FitsInt64 (sinceStartup anchors now clockType)) (localtime : ℤ → Tm)
    {needsWallClock needsElapsed : Bool}
    (hin : InRange needsWallClock needsElapsed anchors (clockNowNs now) clockType) :
    ∃ context,
      Resolves anchors clockType now localtime needsWallClock needsElapsed context := by
  refine ⟨_, checkedResolve_of_inRange _ _ _ _ _ _ hin, fun hwall => ?_, fun hwall => ?_,
    fun hneeds => ?_⟩
  · rw [resolve_tm _ _ _ _ _ _ hwall, hinstant]
  · rw [resolve_millis _ _ _ _ _ _ hwall, hinstant]
  · rw [resolve_elapsed _ _ _ _ _ _ hneeds, helapsed]
    exact List.take_of_length_le (length_elapsedText hfits)

theorem survives_iff {now : ℤ} (hnow : FitsInt64 now) (anchors : StartupAnchors)
    (clockType : ClockType) :
    Survives anchors clockType now ↔ Representable anchors clockType now := by
  constructor
  · rintro ⟨hdecoded, hinstant, -, hresolved, hrendered⟩
    have hnonneg : 0 ≤ now := hdecoded ▸ ticksToNs_nonneg _
    obtain ⟨context, hcontext⟩ := hresolved (fun _ => {}) true true
    have hboth := (checkedResolve_isSome_iff (fun _ => {}) true true anchors (clockNowNs now)
      clockType).mp (by rw [hcontext.inRange, Option.isSome_some])
    rw [hinstant, seconds_millis_iff] at hrendered
    cases clockType with
    | system =>
        have helapsed := hboth rfl
        rw [hdecoded] at helapsed
        exact ⟨hnonneg, helapsed⟩
    | steady =>
        obtain ⟨helapsed, hsample⟩ := hboth rfl
        rw [hdecoded] at helapsed hsample
        exact ⟨hnonneg, helapsed, hsample rfl, hrendered⟩
  · intro h
    have hdecoded : ticksToNs (clockNowNs now) = now := ticksToNs_clockNowNs ⟨h.1, hnow.2⟩
    have hinstant : wallClockInstant anchors (clockNowNs now) clockType =
        instantOf anchors now clockType := by
      cases clockType <;> simp only [wallClockInstant, instantOf, hdecoded]
    have helapsed : elapsedSince anchors (clockNowNs now) clockType =
        sinceStartup anchors now clockType := by
      cases clockType <;> simp only [elapsedSince, sinceStartup, hdecoded]
    refine ⟨hdecoded, hinstant, helapsed, fun localtime needsWallClock needsElapsed => ?_, ?_⟩
    · exact exists_resolves hinstant helapsed (fitsInt64_sinceStartup h) localtime
        (inRange_of_representable hdecoded h needsWallClock needsElapsed)
    · rw [hinstant, seconds_millis_iff]
      cases clockType with
      | system => exact .inl h.1
      | steady => exact h.2.2.2

/-- One second after the start, on either clock. -/
theorem survives_second : Survives ⟨0, 1000000000⟩ .steady 1000000000 :=
  (survives_iff (by decide) _ _).mpr ⟨by decide, by decide, by decide, .inl (by decide)⟩

/-- One nanosecond before the epoch of the system clock. -/
theorem not_survives_before_epoch : ¬ Survives ⟨0, 0⟩ .system (-1) := by
  intro h
  exact absurd h.decoded (by decide)

end Unlog.Emit
