import Unlog.Library.Transition

/-! Systems driven by an endless supply of actions: what they reach, and when they stop. -/

namespace Unlog.Library.System

universe u v

variable {State : Type u} {Action : Type v}

/-- The state after the first `k` actions of the supply; `none` once an action was refused. -/
def follow (M : System State Action) (s : State) (supply : ℕ → Action) : ℕ → Option State
  | 0 => some s
  | k + 1 => (follow M s supply k).bind fun t => M.step t (supply k)

variable {M : System State Action} {s t : State} {supply : ℕ → Action} {k : ℕ}

/-- What holds at the start and survives every step holds as long as the supply is followed;
a step may use how far the supply has come. -/
theorem follow_invariant {I : ℕ → State → Prop} (hinit : I 0 s)
    (hstep : ∀ k t t', I k t → M.step t (supply k) = some t' → I (k + 1) t')
    (h : M.follow s supply k = some t) : I k t := by
  induction k generalizing t with
  | zero =>
      obtain rfl : s = t := by simpa [follow] using h
      exact hinit
  | succ k ih =>
      obtain ⟨before, hbefore, hnext⟩ := Option.bind_eq_some_iff.mp h
      exact hstep k before t (ih hbefore) hnext

/-- A supply that is not followed to its `k`-th action was refused before it. -/
theorem exists_refused (h : M.follow s supply k = none) :
    ∃ j t, j < k ∧ M.follow s supply j = some t ∧ M.step t (supply j) = none := by
  induction k with
  | zero => simp [follow] at h
  | succ k ih =>
      cases hbefore : M.follow s supply k with
      | none =>
          obtain ⟨j, t, hj, hrest⟩ := ih hbefore
          exact ⟨j, t, Nat.lt_succ_of_lt hj, hrest⟩
      | some t =>
          refine ⟨k, t, Nat.lt_succ_self k, hbefore, ?_⟩
          simpa [follow, hbefore] using h

section Progress

variable {size : State → ℕ} {moves : Action → Prop}

/-- Up to the next move of the supply, the size has not grown. -/
theorem size_le_of_follow (hstep : ∀ s a s', M.step s a = some s' → size s' ≤ size s)
    {j : ℕ} {t' : State} (hkj : k ≤ j) (h : M.follow s supply k = some t)
    (h' : M.follow s supply j = some t') : size t' ≤ size t := by
  induction j, hkj using Nat.le_induction generalizing t' with
  | base =>
      obtain rfl : t = t' := by simpa [h] using h'
      exact le_rfl
  | succ j _ ih =>
      obtain ⟨before, hbefore, hnext⟩ := Option.bind_eq_some_iff.mp h'
      exact (hstep before (supply j) t' hnext).trans (ih hbefore)

/-- A size that never grows and drops at every move: the system refuses some action, when
as long as it runs another move is still to come. -/
theorem exists_follow_eq_none (hstep : ∀ s a s', M.step s a = some s' → size s' ≤ size s)
    (hmove : ∀ s a s', M.step s a = some s' → moves a → size s' < size s)
    (hsupply : ∀ k t, M.follow s supply k = some t → ∃ j, k ≤ j ∧ moves (supply j)) :
    ∃ k, M.follow s supply k = none := by
  by_contra hnever
  push Not at hnever
  -- induction on the size: the state after the next move is smaller
  have hdescent : ∀ n k t, M.follow s supply k = some t → size t = n → False := by
    intro n
    induction n using Nat.strong_induction_on with
    | _ n ih =>
        intro k t h hsize
        obtain ⟨j, hkj, hj⟩ := hsupply k t h
        obtain ⟨before, hbefore⟩ := Option.ne_none_iff_exists'.mp (hnever j)
        obtain ⟨after, hafter⟩ := Option.ne_none_iff_exists'.mp (hnever (j + 1))
        have hle := size_le_of_follow hstep hkj h hbefore
        have hlt : size after < size before := by
          apply hmove before (supply j) after _ hj
          simpa [follow, hbefore] using hafter
        exact ih (size after) (by omega) (j + 1) after hafter rfl
  exact hdescent (size s) 0 s rfl rfl

end Progress

end Unlog.Library.System
