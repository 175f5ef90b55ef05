import Unlog.Library.Transition

/-! # Fair behaviours

What a system comes to in an endless behaviour, where a kind of action that is no longer disabled
is taken some day. -/

namespace Unlog.Library

universe u v w

variable {State : Type u} {Action : Type v}

/-- Every state with `P` is followed by one with `Q`, or has it. -/
def LeadsTo (σ : ℕ → State) (P Q : State → Prop) : Prop := ∀ k, P (σ k) → ∃ j, k ≤ j ∧ Q (σ j)

namespace LeadsTo

variable {σ : ℕ → State} {P Q R : State → Prop}

theorem of_imp (h : ∀ s, P s → Q s) : LeadsTo σ P Q := fun k hk => ⟨k, le_rfl, h _ hk⟩

theorem trans (hpq : LeadsTo σ P Q) (hqr : LeadsTo σ Q R) : LeadsTo σ P R := by
  intro k hk
  obtain ⟨j, hkj, hj⟩ := hpq k hk
  obtain ⟨i, hji, hi⟩ := hqr j hj
  exact ⟨i, hkj.trans hji, hi⟩

/-- It depends on `R` how the goal is reached. -/
theorem cases (R : State → Prop) (hyes : LeadsTo σ (fun s => P s ∧ R s) Q)
    (hno : LeadsTo σ (fun s => P s ∧ ¬ R s) Q) : LeadsTo σ P Q := by
  intro k hk
  by_cases hR : R (σ k)
  · exact hyes k ⟨hk, hR⟩
  · exact hno k ⟨hk, hR⟩

/-- From some moment on. -/
theorem shift (h : LeadsTo σ P Q) (n : ℕ) : LeadsTo (fun i => σ (n + i)) P Q := by
  intro k hk
  obtain ⟨j, hkj, hj⟩ := h (n + k) hk
  refine ⟨j - n, by omega, ?_⟩
  change Q (σ (n + (j - n)))
  rwa [Nat.add_sub_cancel' (by omega)]

/-- What no turn undoes still holds when the goal is reached. -/
theorem stable (h : LeadsTo σ P Q) (hkeep : ∀ k, R (σ k) → R (σ (k + 1))) :
    LeadsTo σ (fun s => P s ∧ R s) fun s => Q s ∧ R s := by
  intro k ⟨hP, hR⟩
  have hlater : ∀ j, k ≤ j → R (σ j) := by
    intro j hkj
    induction j, hkj using Nat.le_induction with
    | base => exact hR
    | succ j _ ih => exact hkeep j ih
  obtain ⟨j, hkj, hQ⟩ := h k hP
  exact ⟨j, hkj, hQ, hlater j hkj⟩

/-- What only the goal ends holds until the goal is reached. -/
theorem keeps_unless (hkeep : ∀ k, P (σ k) → Q (σ (k + 1)) ∨ P (σ (k + 1))) {k j : ℕ} (hkj : k ≤ j)
    (hk : P (σ k)) : P (σ j) ∨ ∃ i, k ≤ i ∧ Q (σ i) := by
  induction j, hkj using Nat.le_induction with
  | base => exact .inl hk
  | succ j hkj ih =>
      rcases ih with hj | hgoal
      · exact (hkeep j hj).symm.imp_right fun hQ => ⟨j + 1, Nat.le_succ_of_le hkj, hQ⟩
      · exact .inr hgoal

/-- Each round comes to the goal or to a smaller state. -/
theorem of_size (size : State → ℕ)
    (h : ∀ n, LeadsTo σ (fun s => P s ∧ size s = n) fun s => Q s ∨ P s ∧ size s < n) :
    LeadsTo σ P Q := by
  have hdescent : ∀ n k, P (σ k) → size (σ k) = n → ∃ j, k ≤ j ∧ Q (σ j) := by
    intro n
    induction n using Nat.strong_induction_on with
    | _ n ih =>
        intro k hk hn
        obtain ⟨j, hkj, hj | ⟨hP, hlt⟩⟩ := h n k ⟨hk, hn⟩
        · exact ⟨j, hkj, hj⟩
        · obtain ⟨i, hji, hi⟩ := ih _ hlt j hP rfl
          exact ⟨i, hkj.trans hji, hi⟩
  exact fun k hk => hdescent _ k hk rfl

/-- Finitely many parties, of which each is done some day and never gets busy again, are some day
all done. -/
theorem all_done {ι : Type w} {busy : State → ι → Prop}
    (hfinite : ∀ k, {i | busy (σ k) i}.Finite)
    (hkeep : ∀ k i, busy (σ (k + 1)) i → busy (σ k) i)
    (hdone : ∀ i, LeadsTo σ (fun s => busy s i) fun s => ¬ busy s i) (k : ℕ) :
    ∃ j, k ≤ j ∧ ∀ i, ¬ busy (σ j) i := by
  have hsubset : ∀ k j, k ≤ j → {i | busy (σ j) i} ⊆ {i | busy (σ k) i} := by
    intro k j hkj
    induction j, hkj using Nat.le_induction with
    | base => exact subset_rfl
    | succ j _ ih => exact fun i hi => ih (hkeep j i hi)
  have hdescent : ∀ n k, {i | busy (σ k) i}.ncard = n → ∃ j, k ≤ j ∧ ∀ i, ¬ busy (σ j) i := by
    intro n
    induction n using Nat.strong_induction_on with
    | _ n ih =>
        intro k hn
        by_cases hbusy : ∃ i, busy (σ k) i
        · obtain ⟨i, hi⟩ := hbusy
          obtain ⟨j, hkj, hj⟩ := hdone i k hi
          have hssubset : {i | busy (σ j) i} ⊂ {i | busy (σ k) i} :=
            ⟨hsubset k j hkj, fun h => hj (h hi)⟩
          have hlt := Set.ncard_lt_ncard hssubset (hfinite k)
          obtain ⟨l, hjl, hl⟩ := ih _ (hn ▸ hlt) j rfl
          exact ⟨l, hkj.trans hjl, hl⟩
        · exact ⟨k, le_rfl, not_exists.mp hbusy⟩
  exact hdescent _ k rfl

end LeadsTo

namespace System

variable (M : System State Action)

/-- In each moment a step is taken, or none. -/
def Behaviour (ok : Action → Prop) (σ : ℕ → State) : Prop :=
  ∀ k, σ (k + 1) = σ k ∨ ∃ a, ok a ∧ M.step (σ k) a = some (σ (k + 1))

/-- If from some moment on there is always such an action that is not disabled, one is taken. -/
def WeaklyFair (σ : ℕ → State) (moves : Action → Prop) : Prop :=
  ∀ k, (∀ j, k ≤ j → ∃ a, moves a ∧ (M.step (σ j) a).isSome = true) →
    ∃ j a, k ≤ j ∧ moves a ∧ M.step (σ j) a = some (σ (j + 1))

/-- If there is such an action that is not disabled again and again, one is taken. -/
def StronglyFair (σ : ℕ → State) (moves : Action → Prop) : Prop :=
  ∀ k, (∀ j, k ≤ j → ∃ i, j ≤ i ∧ ∃ a, moves a ∧ (M.step (σ i) a).isSome = true) →
    ∃ j a, k ≤ j ∧ moves a ∧ M.step (σ j) a = some (σ (j + 1))

variable {M} {σ : ℕ → State} {ok moves : Action → Prop} {P Q I : State → Prop}

theorem Behaviour.mono {weaker : Action → Prop} (h : M.Behaviour ok σ)
    (hweaker : ∀ a, ok a → weaker a) : M.Behaviour weaker σ :=
  fun k => (h k).imp_right fun ⟨a, ha, hstep⟩ => ⟨a, hweaker a ha, hstep⟩

theorem Behaviour.shift (h : M.Behaviour ok σ) (n : ℕ) : M.Behaviour ok fun k => σ (n + k) :=
  fun k => h (n + k)

theorem WeaklyFair.shift (h : M.WeaklyFair σ moves) (n : ℕ) :
    M.WeaklyFair (fun k => σ (n + k)) moves := by
  intro k hk
  have hlater : ∀ j, n + k ≤ j → ∃ a, moves a ∧ (M.step (σ j) a).isSome = true := by
    intro j hj
    have hready : ∃ a, moves a ∧ (M.step (σ (n + (j - n))) a).isSome = true :=
      hk (j - n) (by omega)
    have hback : n + (j - n) = j := by omega
    rwa [hback] at hready
  obtain ⟨j, a, hkj, ha, hstep⟩ := h (n + k) hlater
  refine ⟨j - n, a, by omega, ha, ?_⟩
  have hback : n + (j - n) = j := by omega
  change M.step (σ (n + (j - n))) a = some (σ (n + (j - n) + 1))
  rw [hback, hstep]

theorem Behaviour.invariant (h : M.Behaviour ok σ) (hs : I (σ 0))
    (hstep : ∀ s a s', I s → ok a → M.step s a = some s' → I s') (k : ℕ) : I (σ k) := by
  induction k with
  | zero => exact hs
  | succ k ih =>
      rcases h k with heq | ⟨a, ha, hnext⟩
      · exact heq ▸ ih
      · exact hstep _ _ _ ih ha hnext

theorem Behaviour.reachableWhere (h : M.Behaviour ok σ)
    (hs : M.ReachableWhere (fun _ a => ok a) (σ 0)) (k : ℕ) :
    M.ReachableWhere (fun _ a => ok a) (σ k) :=
  h.invariant hs (fun _ _ _ hI ha hstep => .step hI ha hstep) k

/-- What no step undoes, no moment undoes. -/
theorem Behaviour.keep (h : M.Behaviour ok σ) (hstep : ∀ s a s', P s → M.step s a = some s' → P s')
    (k : ℕ) (hk : P (σ k)) : P (σ (k + 1)) := by
  rcases h k with heq | ⟨a, -, hnext⟩
  · exact heq ▸ hk
  · exact hstep _ _ _ hk hnext

/-- A kind of action that is never disabled before the goal and always brings it nearer, while no
other action takes it further away. -/
theorem Behaviour.leadsTo_of_size (h : M.Behaviour ok σ) (size : State → ℕ) (hI : ∀ k, I (σ k))
    (hfair : M.WeaklyFair σ moves)
    (hready : ∀ s, I s → P s → ∃ a, moves a ∧ (M.step s a).isSome = true)
    (hstep : ∀ s a s', I s → P s → ok a → M.step s a = some s' → Q s' ∨ P s' ∧ size s' ≤ size s)
    (hmove : ∀ s a s', I s → P s → moves a → M.step s a = some s' → Q s' ∨ P s' ∧ size s' < size s) :
    LeadsTo σ P Q := by
  refine LeadsTo.of_size size fun n k ⟨hk, hn⟩ => ?_
  have hkeep : ∀ i, P (σ i) ∧ size (σ i) ≤ n →
      Q (σ (i + 1)) ∨ P (σ (i + 1)) ∧ size (σ (i + 1)) ≤ n := by
    intro i ⟨hP, hle⟩
    rcases h i with heq | ⟨a, ha, hnext⟩
    · exact .inr (heq.symm ▸ ⟨hP, hle⟩)
    · refine (hstep _ _ _ (hI i) hP ha hnext).imp_right fun ⟨hP', hle'⟩ => ?_
      exact ⟨hP', hle'.trans hle⟩
  -- up to the move, the goal is reached or is as near as it was
  have hwait : ∀ j, k ≤ j → P (σ j) ∧ size (σ j) ≤ n ∨ ∃ i, k ≤ i ∧ Q (σ i) := fun j hkj =>
    LeadsTo.keeps_unless (P := fun s => P s ∧ size s ≤ n) hkeep hkj ⟨hk, hn.le⟩
  by_cases hgoal : ∃ i, k ≤ i ∧ Q (σ i)
  · obtain ⟨i, hki, hi⟩ := hgoal
    exact ⟨i, hki, .inl hi⟩
  · obtain ⟨j, a, hkj, ha, hnext⟩ := hfair k fun j hkj =>
      hready _ (hI j) ((hwait j hkj).resolve_right hgoal).1
    obtain ⟨hP, hle⟩ := (hwait j hkj).resolve_right hgoal
    refine ⟨j + 1, Nat.le_succ_of_le hkj, ?_⟩
    refine (hmove _ _ _ (hI j) hP ha hnext).imp_right fun ⟨hP', hlt⟩ => ⟨hP', ?_⟩
    exact Nat.lt_of_lt_of_le hlt hle

/-- In every state some party is not disabled and would bring the goal nearer, and it stays so
until the goal is nearer. -/
theorem Behaviour.leadsTo_of_helpful {ι : Type w} {moves : ι → Action → Prop}
    (h : M.Behaviour ok σ) (helps : State → ι → Prop) (size : State → ℕ) (hI : ∀ k, I (σ k))
    (hfair : ∀ i, M.WeaklyFair σ (moves i)) (hhelp : ∀ s, I s → P s → ∃ i, helps s i)
    (hready : ∀ s i, I s → P s → helps s i → ∃ a, moves i a ∧ (M.step s a).isSome = true)
    (hstep : ∀ s a s' i, I s → P s → helps s i → ok a → M.step s a = some s' →
      Q s' ∨ P s' ∧ (size s' < size s ∨ helps s' i ∧ size s' = size s))
    (hmove : ∀ s a s' i, I s → P s → helps s i → moves i a → M.step s a = some s' →
      Q s' ∨ P s' ∧ size s' < size s) :
    LeadsTo σ P Q := by
  refine LeadsTo.of_size size fun n k ⟨hk, hn⟩ => ?_
  obtain ⟨i, hi⟩ := hhelp _ (hI k) hk
  -- until the goal is nearer, the party `i` helps
  have hround : LeadsTo σ (fun s => P s ∧ helps s i ∧ size s = n)
      fun s => Q s ∨ P s ∧ size s < n := by
    refine h.leadsTo_of_size (fun _ => 0) hI (hfair i) ?_ ?_ ?_
    · rintro s hs ⟨hP, hhelps, rfl⟩
      exact hready s i hs hP hhelps
    · rintro s a s' hs ⟨hP, hhelps, rfl⟩ ha hnext
      rcases hstep s a s' i hs hP hhelps ha hnext with hQ | ⟨hP', hlt | ⟨hkeep, heq⟩⟩
      · exact .inl (.inl hQ)
      · exact .inl (.inr ⟨hP', hlt⟩)
      · exact .inr ⟨⟨hP', hkeep, heq⟩, le_rfl⟩
    · rintro s a s' hs ⟨hP, hhelps, rfl⟩ hmoves hnext
      exact .inl (hmove s a s' i hs hP hhelps hmoves hnext)
  exact hround k ⟨hk, hi, hn⟩

/-! ## Schedules -/

/-- The schedule comes to such an action again and again. -/
def Recurs (schedule : ℕ → Action) (moves : Action → Prop) : Prop :=
  ∀ k, ∃ j, k ≤ j ∧ moves (schedule j)

/-- The state after the first `k` turns of the schedule; an action that is disabled at its turn is
skipped. -/
def trace (M : System State Action) (s : State) (schedule : ℕ → Action) : ℕ → State
  | 0 => s
  | k + 1 => (M.step (trace M s schedule k) (schedule k)).getD (trace M s schedule k)

variable {s : State} {schedule : ℕ → Action}

theorem trace_behaviour (hok : ∀ k, ok (schedule k)) : M.Behaviour ok (M.trace s schedule) := by
  intro k
  cases h : M.step (M.trace s schedule k) (schedule k) with
  | none => exact .inl (by rw [trace, h, Option.getD_none])
  | some s' => exact .inr ⟨schedule k, hok k, by rw [h, trace, h, Option.getD_some]⟩

/-- The schedule of a list, and then of an action that is disabled. -/
theorem trace_getD {s' : State} {b : Action} {actions : List Action}
    (hrun : M.run s actions = some s') (hstop : M.step s' b = none) {k : ℕ}
    (hk : actions.length ≤ k) : M.trace s (fun i => actions.getD i b) k = s' := by
  have hprefix : ∀ n, n ≤ actions.length →
      M.run s (actions.take n) = some (M.trace s (fun i => actions.getD i b) n) := by
    intro n hn
    induction n with
    | zero => rfl
    | succ n ih =>
        have hsplit : actions = actions.take n ++ actions[n] :: actions.drop (n + 1) := by simp
        rw [hsplit, run_append, ih (Nat.le_of_succ_le hn), Option.bind_some] at hrun
        obtain ⟨next, hnext, -⟩ := Option.bind_eq_some_iff.mp hrun
        rw [← List.take_append_getElem hn, run_append, ih (Nat.le_of_succ_le hn), Option.bind_some,
          trace, List.getD_eq_getElem _ _ hn, hnext]
        exact Option.bind_eq_some_iff.mpr ⟨next, hnext, rfl⟩
  induction k, hk using Nat.le_induction with
  | base =>
      have hall := hprefix actions.length le_rfl
      rw [List.take_length, hrun] at hall
      exact (Option.some.inj hall).symm
  | succ k hk ih => rw [trace, ih, List.getD_eq_default _ _ hk, hstop, Option.getD_none]

/-- A system that rests where such actions are disabled puts none of them off. -/
theorem weaklyFair_of_rest {n : ℕ} (hrest : ∀ k, n ≤ k → σ k = s)
    (h : ∀ a, moves a → (M.step s a).isSome ≠ true) : M.WeaklyFair σ moves := by
  intro k hk
  obtain ⟨a, ha, hisSome⟩ := hk (max k n) (le_max_left k n)
  rw [hrest _ (le_max_right k n)] at hisSome
  exact absurd hisSome (h a ha)

theorem stronglyFair_of_rest {n : ℕ} (hrest : ∀ k, n ≤ k → σ k = s)
    (h : ∀ a, moves a → (M.step s a).isSome ≠ true) : M.StronglyFair σ moves := by
  intro k hk
  obtain ⟨i, hi, a, ha, hisSome⟩ := hk (max k n) (le_max_left k n)
  rw [hrest _ ((le_max_right k n).trans hi)] at hisSome
  exact absurd hisSome (h a ha)

/-- It is enough to come again and again to one action that is enabled whenever one of the kind
is. -/
theorem Recurs.weaklyFair {b : Action} (h : Recurs schedule (· = b)) (hb : moves b)
    (henabled : ∀ s a, moves a → (M.step s a).isSome = true → (M.step s b).isSome = true) :
    M.WeaklyFair (M.trace s schedule) moves := by
  intro k hready
  obtain ⟨j, hkj, hj⟩ := h k
  obtain ⟨a, ha, hisSome⟩ := hready j hkj
  obtain ⟨s', hnext⟩ := Option.isSome_iff_exists.mp (henabled _ a ha hisSome)
  exact ⟨j, b, hkj, hb, by rw [hnext, trace, hj, hnext, Option.getD_some]⟩

end System

end Unlog.Library
