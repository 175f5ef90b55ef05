import Unlog.Emit.CallSite

/-! # A field that is shown but not carried

One log call exposes every field that a sink shows and the records of its channel do not carry. -/

namespace Unlog.Emit

open Pattern Render

/-- A call of which only the time and the location matter. -/
def firstCall (route : ℕ) (now : ℤ) : LogCall := ⟨route, .info, now, ⟨some 0, 1⟩, [], false⟩

section Converse

variable {clockType : ClockType} {anchors : StartupAnchors} {now : ℤ} {channel shown : Config}
  {sink : SinkEntry} {route : ℕ}

theorem keepsReading_of_wallClock (hnow : FitsInt64 now) (hs : StoredFrom shown sink)
    (h : Denotes clockType anchors sink.pattern.text
      (captureHeader (channelPolicyFor channel) (firstCall route now)) (firstCall route now))
    (hrequires : requiresWallClock sink.requirements = true) : KeepsReading channel now := by
  have hinstant := h.wallClock (hs.requiresWallClock_iff.mp hrequires)
  exact (ticksToNs_captureHeader_iff hnow).mp (wallClockInstant_eq_iff.mp hinstant)

theorem keepsReading_of_elapsed (hnow : FitsInt64 now) (hs : StoredFrom shown sink)
    (h : Denotes clockType anchors sink.pattern.text
      (captureHeader (channelPolicyFor channel) (firstCall route now)) (firstCall route now))
    (hrequires : requiresElapsed sink.requirements = true) : KeepsReading channel now := by
  have hsince := h.elapsed (hs.requiresElapsed_iff.mp hrequires)
  exact (ticksToNs_captureHeader_iff hnow).mp (elapsedSince_eq_iff.mp hsince)

/-- A record that denotes the call in a sink, and is resolved in range, carries what the sink
shows. -/
theorem carries_of_denotes (hnow : FitsInt64 now) (hs : StoredFrom shown sink)
    {needsWallClock needsElapsed : Bool}
    (hwall : requiresWallClock sink.requirements = true → needsWallClock = true)
    (helapsed : requiresElapsed sink.requirements = true → needsElapsed = true)
    (h : Denotes clockType anchors sink.pattern.text
      (captureHeader (channelPolicyFor channel) (firstCall route now)) (firstCall route now))
    (hin : InRange needsWallClock needsElapsed anchors
      (captureHeader (channelPolicyFor channel) (firstCall route now)).timestamp clockType) :
    Carries clockType anchors now channel shown where
  wallClock hrequires := by
    rw [← hs.2] at hrequires
    have hkeeps := keepsReading_of_wallClock hnow hs h hrequires
    refine ⟨hkeeps, ?_⟩
    rintro rfl
    obtain ⟨hfits, hsample⟩ := hin (Bool.or_eq_true _ _ |>.mpr (.inl (hwall hrequires)))
    have hreading : ticksToNs (captureHeader (channelPolicyFor channel)
        (firstCall route now)).timestamp = now := (ticksToNs_captureHeader_iff hnow).mpr hkeeps
    rw [hreading] at hfits hsample
    exact ⟨hfits, hsample (hwall hrequires)⟩
  elapsed hrequires := by
    rw [← hs.2] at hrequires
    have hkeeps := keepsReading_of_elapsed hnow hs h hrequires
    refine ⟨hkeeps, ?_⟩
    have hreading : ticksToNs (captureHeader (channelPolicyFor channel)
        (firstCall route now)).timestamp = now := (ticksToNs_captureHeader_iff hnow).mpr hkeeps
    cases clockType with
    | system =>
        have hfits := hin (helapsed hrequires)
        rwa [hreading] at hfits
    | steady =>
        obtain ⟨hfits, -⟩ := hin (Bool.or_eq_true _ _ |>.mpr (.inr (helapsed hrequires)))
        rwa [hreading] at hfits
  sourceFile hcaptured := by
    by_contra hmissing
    have hfile := h.sourceFile (hs.text_eq ▸ (captureSourceFile_iff shown).mp hcaptured)
    simp only [captureHeader, if_neg hmissing] at hfile
    contradiction
  sourceLine hcaptured := by
    by_contra hmissing
    have hline := h.sourceLine (hs.text_eq ▸ (captureSourceLine_iff shown).mp hcaptured)
    simp only [captureHeader, if_neg hmissing] at hline
    exact absurd hline Int.zero_ne_one

end Converse

/-- Lines that all show their calls need every field that is shown carried. -/
theorem carries_of_rendersCallSites {localtime : ℤ → Tm} {registrations : List Registration}
    {clockType : ClockType} {anchors : StartupAnchors} {now : ℤ} (hnow : FitsInt64 now)
    (h : RendersCallSites localtime registrations clockType anchors now)
    {channel shown : Config × ℕ} (hc : channel ∈ registrations.filterMap Registration.channel?)
    (hshown : shown ∈ channel :: registrations.filterMap Registration.customSink?) :
    Carries clockType anchors now channel.1 shown.1 := by
  obtain ⟨i, hi⟩ := List.getElem?_of_mem hc
  obtain ⟨route, hr, -, hresolved, hdenotes⟩ :=
    h (fun _ => []) [] (firstCall i now) channel rfl hi
  have hstored := stored_registered clockType anchors registrations
  obtain ⟨sink, hsink, hs⟩ := hstored.exists_sink hi hr hshown
  refine carries_of_denotes hnow hs (fun hrequires => ?_) (fun hrequires => ?_)
    (hdenotes sink hsink) ((checkedResolve_isSome_iff _ _ _ _ _ _).mp hresolved)
  · exact (hstored.requires_iff route _ requiresWallClock_union rfl).mpr ⟨sink, hsink, hrequires⟩
  · exact (hstored.requires_iff route _ requiresElapsed_union rfl).mpr ⟨sink, hsink, hrequires⟩

/-- The calendar of a zone without offset. -/
def utc (t : ℤ) : Tm where
  tmHour := (t / 3600 % 24).toNat
  tmMin := (t / 60 % 60).toNat
  tmSec := (t % 60).toNat

end Unlog.Emit
