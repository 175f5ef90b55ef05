import Unlog.Types
import Unlog.Library.Stream

/-! # `fd_sink::write`: the loop over `::write`

The descriptor answers every call with some outcome; the loop is a system whose actions are
these outcomes, and a line is written against an endless supply of them. -/

namespace Unlog.Sink

open Library

/-! ## The loop -/

inductive Errno where
  | eintr
  | other (code : ℕ)
  deriving DecidableEq, Repr

/-- How the descriptor answers one call: it has room for `room` bytes, or the call fails. -/
inductive Outcome where
  | accepts (room : ℕ)
  | fails (errno : Errno)
  deriving DecidableEq, Repr

/-- The bytes the descriptor takes of those it is offered. -/
def Outcome.taken (data : Text) : Outcome → Text
  | .accepts room => data.take room
  | .fails _ => []

/-- The return value of `::write`. -/
def Outcome.wrote (data : Text) : Outcome → ℤ
  | .accepts room => (data.take room).length
  | .fails _ => -1

/-- An error on which the loop gives up. -/
def Outcome.Hard : Outcome → Prop
  | .accepts _ => False
  | .fails errno => errno ≠ .eintr

/-- The local variable of the loop, whether it was left by `break`, and what the descriptor
has accepted. -/
structure WriteState where
  off : ℕ
  broke : Bool
  accepted : Text
  deriving DecidableEq, Repr

/-- `write` has left the loop. -/
def WriteState.Returned (line : Text) (s : WriteState) : Prop :=
  s.broke = true ∨ line.length ≤ s.off

instance (line : Text) (s : WriteState) : Decidable (s.Returned line) :=
  inferInstanceAs (Decidable (_ ∨ _))

/-- One turn of the loop; no turn is left after the return. -/
def writeTurn (line : Text) (s : WriteState) (outcome : Outcome) : Option WriteState :=
  if s.Returned line then none
  else
    let data := line.drop s.off
    let wrote := outcome.wrote data
    if wrote < 0 then
      if outcome = .fails .eintr then some s
      else some { s with broke := true }
    else
      some { s with off := s.off + wrote.toNat, accepted := s.accepted ++ outcome.taken data }

def writeStart : WriteState := { off := 0, broke := false, accepted := [] }

def fdSinkWrite (line : Text) : System WriteState Outcome where
  Initial s := s = writeStart
  step := writeTurn line

/-- `write(line)` after `k` calls of `::write` that were answered by `outcomes`. -/
def writing (line : Text) (outcomes : ℕ → Outcome) (k : ℕ) : Option WriteState :=
  (fdSinkWrite line).follow writeStart outcomes k

/-! ## One turn -/

section Turn

variable {line : Text} {s s' : WriteState} {outcome : Outcome}

@[simp] theorem not_hard_accepts (room : ℕ) : ¬(Outcome.accepts room).Hard := id

@[simp] theorem hard_fails (errno : Errno) : (Outcome.fails errno).Hard ↔ errno ≠ .eintr := Iff.rfl

theorem writeTurn_accepts (h : ¬s.Returned line) (room : ℕ) :
    writeTurn line s (.accepts room) = some { s with
      off := s.off + min room (line.length - s.off)
      accepted := s.accepted ++ (line.drop s.off).take room } := by
  have hwrote : ¬(Outcome.accepts room).wrote (line.drop s.off) < 0 := by
    simp only [Outcome.wrote]
    omega
  rw [writeTurn, if_neg h]
  simp only [if_neg hwrote]
  simp only [Outcome.wrote, Outcome.taken, Int.toNat_natCast, List.length_take, List.length_drop]

theorem writeTurn_fails (h : ¬s.Returned line) (errno : Errno) :
    writeTurn line s (.fails errno) =
      if errno = .eintr then some s else some { s with broke := true } := by
  simp [writeTurn, h, Outcome.wrote]

theorem writeTurn_eq_none : writeTurn line s outcome = none ↔ s.Returned line := by
  by_cases h : s.Returned line
  · simp [writeTurn, h]
  · cases outcome with
    | accepts room => simp [writeTurn_accepts h, h]
    | fails errno =>
        rw [writeTurn_fails h]
        split <;> simp [h]

/-- What a turn does to the loop, for each outcome. -/
theorem writeTurn_cases (h : writeTurn line s outcome = some s') :
    s.broke = false ∧ s.off < line.length ∧
      ((∃ room, outcome = .accepts room ∧
          s' = { s with
            off := s.off + min room (line.length - s.off)
            accepted := s.accepted ++ (line.drop s.off).take room }) ∨
        (outcome = .fails .eintr ∧ s' = s) ∨
        (outcome.Hard ∧ s' = { s with broke := true })) := by
  have hreturned : ¬s.Returned line := by
    intro hreturned
    rw [writeTurn_eq_none.mpr hreturned] at h
    contradiction
  have hrunning : s.broke = false ∧ s.off < line.length := by
    simpa [WriteState.Returned] using hreturned
  refine ⟨hrunning.1, hrunning.2, ?_⟩
  cases outcome with
  | accepts room =>
      apply Or.inl
      exact ⟨room, rfl, by simpa [writeTurn_accepts hreturned] using h.symm⟩
  | fails errno =>
      apply Or.inr
      rw [writeTurn_fails hreturned] at h
      by_cases hintr : errno = .eintr
      · rw [if_pos hintr] at h
        exact Or.inl ⟨by rw [hintr], by simpa using h.symm⟩
      · rw [if_neg hintr] at h
        exact Or.inr ⟨hintr, by simpa using h.symm⟩

end Turn

/-! ## The whole loop -/

/-- The bytes for which the first `k` answers have room. -/
def offered (outcomes : ℕ → Outcome) : ℕ → ℕ
  | 0 => 0
  | k + 1 =>
    match outcomes k with
    | .accepts room => offered outcomes k + room
    | .fails _ => offered outcomes k

/-- Where the loop stands after `k` calls. -/
structure Progress (line : Text) (outcomes : ℕ → Outcome) (k : ℕ) (s : WriteState) : Prop where
  off_eq : s.off = min (offered outcomes k) line.length
  accepted_eq : s.accepted = line.take s.off
  broke_iff : s.broke = true ↔ ∃ j < k, (outcomes j).Hard

section Loop

variable {line : Text} {outcomes : ℕ → Outcome} {k : ℕ} {s : WriteState}

theorem progress_start : Progress line outcomes 0 writeStart :=
  ⟨by simp [writeStart, offered], by simp [writeStart], by simp [writeStart]⟩

theorem progress_turn {s' : WriteState} (hp : Progress line outcomes k s)
    (h : writeTurn line s (outcomes k) = some s') : Progress line outcomes (k + 1) s' := by
  obtain ⟨hbroke, hoff, hturn⟩ := writeTurn_cases h
  have hnone : ¬∃ j < k, (outcomes j).Hard := by
    rw [← hp.broke_iff, hbroke]
    simp
  have hoffered : offered outcomes k = s.off := by
    have hmin := hp.off_eq
    omega
  have hbefore : (∃ j < k + 1, (outcomes j).Hard) ↔ (outcomes k).Hard := by
    rw [Nat.exists_lt_succ_right]
    simp [hnone]
  rcases hturn with ⟨room, houtcome, rfl⟩ | ⟨houtcome, rfl⟩ | ⟨hhard, rfl⟩
  · constructor
    · simp only [offered, houtcome]
      omega
    · rw [hp.accepted_eq, List.take_add]
      simp [List.take_eq_take_iff]
    · rw [hbefore, houtcome]
      simp [hbroke]
  · constructor
    · simp only [offered, houtcome]
      exact hp.off_eq
    · exact hp.accepted_eq
    · rw [hbefore, houtcome]
      simp [hbroke]
  · constructor
    · cases houtcome : outcomes k with
      | accepts room => simp [houtcome] at hhard
      | fails errno => simpa [offered, houtcome] using hp.off_eq
    · exact hp.accepted_eq
    · rw [hbefore]
      simp [hhard]

theorem progress_writing (h : writing line outcomes k = some s) : Progress line outcomes k s :=
  System.follow_invariant progress_start (fun _ _ _ hp hturn => progress_turn hp hturn) h

theorem returned_of_writing_eq_none (h : writing line outcomes k = none) :
    ∃ j s, writing line outcomes j = some s ∧ s.Returned line := by
  obtain ⟨j, s, -, hs, hrefused⟩ := System.exists_refused h
  exact ⟨j, s, hs, writeTurn_eq_none.mp hrefused⟩

/-- Inside the loop no hard error has come, and there was room for a part of the line only. -/
theorem Progress.running (hp : Progress line outcomes k s) (h : ¬s.Returned line) :
    (∀ j < k, ¬(outcomes j).Hard) ∧ offered outcomes k < line.length := by
  have hrunning : s.broke = false ∧ s.off < line.length := by
    simpa [WriteState.Returned] using h
  constructor
  · intro j hj hhard
    have hbroke := hp.broke_iff.mpr ⟨j, hj, hhard⟩
    simp [hrunning.1] at hbroke
  · have hoff := hp.off_eq
    omega

theorem offered_mono (outcomes : ℕ → Outcome) : Monotone (offered outcomes) := by
  apply monotone_nat_of_le_succ
  intro k
  cases h : outcomes k with
  | accepts room => simp [offered, h]
  | fails errno => simp [offered, h]

theorem offered_of_full {m : ℕ} (hfull : ∀ j, k ≤ j → outcomes j = .accepts 0) (hkm : k ≤ m) :
    offered outcomes m = offered outcomes k := by
  induction m, hkm using Nat.le_induction with
  | base => rfl
  | succ m hkm ih => simp [offered, hfull m hkm, ih]

end Loop

/-! ## What a write promises -/

/-- Only finitely many calls are interrupted. -/
def FinitelyInterrupted (outcomes : ℕ → Outcome) : Prop :=
  ∃ n, ∀ k, n ≤ k → outcomes k ≠ .fails .eintr

/-- The bytes accepted are a prefix of the line at any time, the whole line when the call
returns and no error but `EINTR` occurred, and the call returns unless it is interrupted
for ever. -/
structure Delivers (line : Text) (outcomes : ℕ → Outcome) : Prop where
  ordered : ∀ k s, writing line outcomes k = some s → s.accepted <+: line
  whole : ∀ k s, writing line outcomes k = some s → s.Returned line →
    (∀ j < k, ¬(outcomes j).Hard) → s.accepted = line
  ends : FinitelyInterrupted outcomes →
    ∃ k s, writing line outcomes k = some s ∧ s.Returned line

/-- While no hard error has come and bytes are missing, an answer other than `0` is to come. -/
def NoStall (line : Text) (outcomes : ℕ → Outcome) : Prop :=
  ∀ k, (∀ j < k, ¬(outcomes j).Hard) → offered outcomes k < line.length →
    ∃ j, k ≤ j ∧ outcomes j ≠ .accepts 0

section Promise

variable {line : Text} {outcomes : ℕ → Outcome} {k : ℕ} {s : WriteState}

theorem accepted_prefix (h : writing line outcomes k = some s) : s.accepted <+: line := by
  rw [(progress_writing h).accepted_eq]
  exact List.take_prefix s.off line

theorem accepted_whole (h : writing line outcomes k = some s) (hreturned : s.Returned line)
    (hsoft : ∀ j < k, ¬(outcomes j).Hard) : s.accepted = line := by
  have hp := progress_writing h
  cases hreturned with
  | inl hbroke =>
      obtain ⟨j, hj, hhard⟩ := hp.broke_iff.mp hbroke
      exact absurd hhard (hsoft j hj)
  | inr hoff => rw [hp.accepted_eq, List.take_of_length_le hoff]

/-- What the loop has left to do: the missing bytes, and one for the error that ends it. -/
def WriteState.size (line : Text) (s : WriteState) : ℕ :=
  (line.length - s.off) + if s.broke then 0 else 1

/-- An answer that takes the loop further. -/
def Outcome.Moves (outcome : Outcome) : Prop := outcome ≠ .accepts 0 ∧ outcome ≠ .fails .eintr

theorem size_writeTurn_le {s' : WriteState} {outcome : Outcome}
    (h : writeTurn line s outcome = some s') : s'.size line ≤ s.size line := by
  obtain ⟨hbroke, hoff, ⟨room, -, rfl⟩ | ⟨-, rfl⟩ | ⟨-, rfl⟩⟩ := writeTurn_cases h
  · simp only [WriteState.size]
    omega
  · exact le_rfl
  · simp [WriteState.size]

theorem size_writeTurn_lt {s' : WriteState} {outcome : Outcome}
    (h : writeTurn line s outcome = some s') (hmoves : outcome.Moves) :
    s'.size line < s.size line := by
  obtain ⟨hbroke, hoff, ⟨room, houtcome, rfl⟩ | ⟨houtcome, rfl⟩ | ⟨-, rfl⟩⟩ := writeTurn_cases h
  · have hroom : room ≠ 0 := by
      intro hzero
      exact hmoves.1 (by rw [houtcome, hzero])
    simp only [WriteState.size]
    omega
  · exact absurd houtcome hmoves.2
  · simp [WriteState.size, hbroke]

theorem writing_ends (hstall : NoStall line outcomes) (hfinite : FinitelyInterrupted outcomes) :
    ∃ k s, writing line outcomes k = some s ∧ s.Returned line := by
  by_contra hnever
  push Not at hnever
  obtain ⟨n, hn⟩ := hfinite
  have hrunning : ∀ k, ∃ s, writing line outcomes k = some s ∧ ¬s.Returned line := by
    intro k
    cases h : writing line outcomes k with
    | none =>
        obtain ⟨j, s, hs, hreturned⟩ := returned_of_writing_eq_none h
        exact absurd hreturned (hnever j s hs)
    | some s => exact ⟨s, rfl, hnever k s h⟩
  -- past the last interruption the answer that is to come takes the loop further
  have hmoves : ∀ k, ∃ j, k ≤ j ∧ (outcomes j).Moves := by
    intro k
    obtain ⟨s, hs, hnot⟩ := hrunning (max k n)
    obtain ⟨hsoft, hmissing⟩ := (progress_writing hs).running hnot
    obtain ⟨j, hj, hzero⟩ := hstall (max k n) hsoft hmissing
    exact ⟨j, by omega, hzero, hn j (by omega)⟩
  obtain ⟨k, hk⟩ : ∃ k, writing line outcomes k = none :=
    System.exists_follow_eq_none (fun _ _ _ => size_writeTurn_le) (fun _ _ _ => size_writeTurn_lt)
      (fun k _ _ => hmoves k)
  obtain ⟨s, hs, -⟩ := hrunning k
  simp [hs] at hk

/-- A supply of empty answers alone keeps the call from returning. -/
theorem not_returned_of_full (hsoft : ∀ j < k, ¬(outcomes j).Hard)
    (hmissing : offered outcomes k < line.length)
    (hfull : ∀ j, k ≤ j → outcomes j = .accepts 0) {m : ℕ}
    (h : writing line outcomes m = some s) : ¬s.Returned line := by
  have hp := progress_writing h
  intro hreturned
  cases hreturned with
  | inl hbroke =>
      obtain ⟨j, -, hhard⟩ := hp.broke_iff.mp hbroke
      by_cases hj : j < k
      · exact hsoft j hj hhard
      · rw [hfull j (by omega)] at hhard
        exact not_hard_accepts 0 hhard
  | inr hoff =>
      have hmax := offered_of_full hfull (le_max_left k m)
      have hle := offered_mono outcomes (le_max_right k m)
      have hmin := hp.off_eq
      omega

theorem Delivers.noStall (h : Delivers line outcomes) : NoStall line outcomes := by
  intro k hsoft hmissing
  by_contra hnone
  push Not at hnone
  obtain ⟨m, s, hs, hreturned⟩ := h.ends ⟨k, fun j hj => by simp [hnone j hj]⟩
  exact not_returned_of_full hsoft hmissing hnone hs hreturned

theorem delivers_iff_noStall (line : Text) (outcomes : ℕ → Outcome) :
    Delivers line outcomes ↔ NoStall line outcomes := by
  constructor
  · exact Delivers.noStall
  · intro hstall
    constructor
    · exact fun _ _ => accepted_prefix
    · exact fun _ _ => accepted_whole
    · exact writing_ends hstall

end Promise

/-- A short write, an interruption, then room for everything. -/
def shortThenRoom : ℕ → Outcome
  | 0 => .accepts 2
  | 1 => .fails .eintr
  | _ => .accepts 64

theorem delivers_shortThenRoom :
    Delivers (ascii "ready\n") shortThenRoom ∧
      (writing (ascii "ready\n") shortThenRoom 3).map (·.accepted) = some (ascii "ready\n") := by
  constructor
  · apply (delivers_iff_noStall (ascii "ready\n") shortThenRoom).mpr
    intro k _ _
    exact ⟨k + 2, Nat.le_add_right k 2, by simp [shortThenRoom]⟩
  · decide

/-- A descriptor that always takes nothing and reports no error. -/
theorem not_delivers_full : ¬Delivers (ascii "ready\n") fun _ => .accepts 0 := by
  intro h
  obtain ⟨j, -, hj⟩ := h.noStall 0 (by simp) (by decide)
  exact hj rfl

end Unlog.Sink
