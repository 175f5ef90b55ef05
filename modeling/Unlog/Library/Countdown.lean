import Unlog.Library.Transition

/-! # Countdowns

What a system comes to within a number of steps of one action, whatever comes in between. -/

namespace Unlog.Library

universe u v

variable {State : Type u} {Action : Type v}

/-- Every step of `mover` brings `Q` nearer by one, and no other step takes it further away. -/
structure Countdown (M : System State Action) (ok : Action → Prop) (mover : Action)
    (I Q : State → Prop) (D : ℕ → State → Prop) : Prop where
  keeps : ∀ s a s', I s → ok a → M.step s a = some s' → I s'
  stable : ∀ s a s', I s → Q s → ok a → M.step s a = some s' → Q s'
  counts : ∀ n s s', I s → D (n + 1) s → M.step s mover = some s' → Q s' ∨ D n s'
  waits : ∀ n s a s', I s → D n s → ok a → a ≠ mover → M.step s a = some s' → Q s' ∨ D n s'
  positive : ∀ s, I s → ¬ D 0 s

namespace Countdown

variable {M : System State Action} {ok : Action → Prop} {mover a : Action} {I J Q : State → Prop}
  {D : ℕ → State → Prop} {s s' : State} {n : ℕ}

theorem step [DecidableEq Action] (h : Countdown M ok mover I Q D) (hI : I s) (hD : D n s)
    (ha : ok a) (hstep : M.step s a = some s') :
    Q s' ∨ D (n - if a = mover then 1 else 0) s' := by
  by_cases hmover : a = mover
  · subst hmover
    rw [if_pos rfl]
    cases n with
    | zero => exact absurd hD (h.positive s hI)
    | succ n => exact h.counts n s s' hI hD hstep
  · rw [if_neg hmover]
    exact h.waits n s a s' hI hD ha hmover hstep

theorem run [DecidableEq Action] (h : Countdown M ok mover I Q D) (hI : I s) (hD : Q s ∨ D n s)
    {actions : List Action} (hactions : ∀ a ∈ actions, ok a)
    (hrun : M.run s actions = some s') : Q s' ∨ D (n - actions.count mover) s' ∧ I s' := by
  induction actions generalizing s n with
  | nil =>
      obtain rfl : s = s' := by simpa [System.run] using hrun
      exact hD.imp_right fun hD => ⟨hD, hI⟩
  | cons a actions ih =>
      obtain ⟨next, hnext, hrest⟩ := Option.bind_eq_some_iff.mp hrun
      have ha := hactions a List.mem_cons_self
      have hlater : Q next ∨ D (n - if a = mover then 1 else 0) next :=
        hD.elim (fun hQ => .inl (h.stable s a next hI hQ ha hnext)) fun hD =>
          h.step hI hD ha hnext
      have hcount : (a :: actions).count mover =
          (if a = mover then 1 else 0) + actions.count mover := by
        rw [List.count_cons, Nat.add_comm]
        simp only [beq_iff_eq]
      rw [hcount, ← Nat.sub_sub]
      exact ih (h.keeps s a next hI ha hnext) hlater
        (fun b hb => hactions b (List.mem_cons_of_mem _ hb)) hrest

/-- Enough steps of the mover, among any others, reach the goal. -/
theorem reaches [DecidableEq Action] (h : Countdown M ok mover I Q D) (hI : I s) (hD : D n s)
    {actions : List Action} (hactions : ∀ a ∈ actions, ok a)
    (hrun : M.run s actions = some s') (hcount : n ≤ actions.count mover) : Q s' := by
  have hlast := h.run hI (.inr hD) hactions hrun
  rw [Nat.sub_eq_zero_of_le hcount] at hlast
  exact hlast.resolve_right fun ⟨hD, hI⟩ => h.positive s' hI hD

/-- The mover reaches the goal alone where it is never disabled. -/
theorem alone (h : Countdown M ok mover I Q D) (hmover : ok mover)
    (hready : ∀ n s, I s → J s → D n s → ¬ Q s → (M.step s mover).isSome = true)
    (hkeep : ∀ s s', J s → M.step s mover = some s' → J s') (hI : I s) (hJ : J s)
    (hD : Q s ∨ D n s) :
    ∃ k s', k ≤ n ∧ M.run s (List.replicate k mover) = some s' ∧ Q s' := by
  induction n generalizing s with
  | zero => exact ⟨0, s, le_rfl, rfl, hD.resolve_right (h.positive s hI)⟩
  | succ n ih =>
      by_cases hQ : Q s
      · exact ⟨0, s, Nat.zero_le _, rfl, hQ⟩
      have hD := hD.resolve_left hQ
      obtain ⟨next, hnext⟩ := Option.isSome_iff_exists.mp (hready (n + 1) s hI hJ hD hQ)
      obtain ⟨k, s', hk, hrun, hreached⟩ := ih (h.keeps s mover next hI hmover hnext)
        (hkeep s next hJ hnext) (h.counts n s next hI hD hnext)
      refine ⟨k + 1, s', by omega, ?_, hreached⟩
      rw [List.replicate_succ]
      exact Option.bind_eq_some_iff.mpr ⟨next, hnext, hrun⟩

end Countdown

end Unlog.Library
