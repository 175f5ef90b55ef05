import Mathlib

/-! Labelled transition systems: runs, reachable states, and the invariant rule. -/

namespace Unlog.Library

universe u v

/-- A system whose step is determined by its action; `none` means the action is disabled. -/
structure System (State : Type u) (Action : Type v) where
  Initial : State → Prop
  step : State → Action → Option State

namespace System

variable {State : Type u} {Action : Type v} (M : System State Action)

/-- Execute a list of actions. -/
def run (s : State) : List Action → Option State
  | [] => some s
  | a :: actions => (M.step s a).bind fun s' => run s' actions

/-- Reached from an initial state by steps that all satisfy `ok` in the state they leave. -/
inductive ReachableWhere (ok : State → Action → Prop) : State → Prop
  | initial {s : State} : M.Initial s → ReachableWhere ok s
  | step {s s' : State} {a : Action} :
      ReachableWhere ok s → ok s a → M.step s a = some s' → ReachableWhere ok s'

/-- Reached by any run. -/
def Reachable (s : State) : Prop := M.ReachableWhere (fun _ _ => True) s

variable {M} {ok : State → Action → Prop} {s s' : State}

theorem run_append (actions rest : List Action) :
    M.run s (actions ++ rest) = (M.run s actions).bind fun s' => M.run s' rest := by
  induction actions generalizing s with
  | nil => rfl
  | cons a actions ih =>
      simp only [List.cons_append, run, Option.bind_assoc]
      exact congrArg _ (funext fun s' => ih)

theorem ReachableWhere.reachable (h : M.ReachableWhere ok s) : M.Reachable s := by
  induction h with
  | initial h => exact .initial h
  | step _ _ hstep ih => exact .step ih trivial hstep

/-- A weaker condition on the steps. -/
theorem ReachableWhere.mono {weaker : State → Action → Prop} (h : M.ReachableWhere ok s)
    (hweaker : ∀ s a, M.Reachable s → ok s a → weaker s a) : M.ReachableWhere weaker s := by
  induction h with
  | initial h => exact .initial h
  | step hs hok hnext ih => exact .step ih (hweaker _ _ hs.reachable hok) hnext

theorem Reachable.step {a : Action} (h : M.Reachable s) (hstep : M.step s a = some s') :
    M.Reachable s' :=
  ReachableWhere.step h trivial hstep

/-- What holds initially and survives every step holds in every reachable state; a step may
assume that the state it leaves is reachable. -/
theorem ReachableWhere.invariant {I : State → Prop} (hinit : ∀ s, M.Initial s → I s)
    (hstep : ∀ s a s', M.Reachable s → I s → ok s a → M.step s a = some s' → I s')
    (h : M.ReachableWhere ok s) : I s := by
  induction h with
  | initial h => exact hinit _ h
  | step hs hok hnext ih => exact hstep _ _ _ hs.reachable ih hok hnext

theorem Reachable.invariant {I : State → Prop} (hinit : ∀ s, M.Initial s → I s)
    (hstep : ∀ s a s', M.Reachable s → I s → M.step s a = some s' → I s')
    (h : M.Reachable s) : I s :=
  ReachableWhere.invariant hinit (fun s a s' hs hi _ hnext => hstep s a s' hs hi hnext) h

theorem Reachable.run {actions : List Action} (h : M.Reachable s)
    (hrun : M.run s actions = some s') : M.Reachable s' := by
  induction actions generalizing s with
  | nil =>
      obtain rfl : s = s' := by simpa [System.run] using hrun
      exact h
  | cons a actions ih =>
      obtain ⟨next, hnext, hrest⟩ := Option.bind_eq_some_iff.mp hrun
      exact ih (h.step hnext) hrest

/-- A run that keeps `I`, under which all its actions are fine. -/
theorem ReachableWhere.run {I : State → Prop} {actions : List Action}
    (h : M.ReachableWhere ok s) (hrun : M.run s actions = some s') (hI : I s)
    (hok : ∀ s, I s → ∀ a ∈ actions, ok s a)
    (hkeep : ∀ s a s', a ∈ actions → I s → M.step s a = some s' → I s') :
    M.ReachableWhere ok s' := by
  induction actions generalizing s with
  | nil =>
      obtain rfl : s = s' := by simpa [System.run] using hrun
      exact h
  | cons a actions ih =>
      obtain ⟨next, hnext, hrest⟩ := Option.bind_eq_some_iff.mp hrun
      refine ih (.step h (hok s hI a List.mem_cons_self) hnext) hrest
        (hkeep s a next List.mem_cons_self hI hnext) ?_ ?_
      · exact fun s hI b hb => hok s hI b (List.mem_cons_of_mem _ hb)
      · exact fun s b s' hb => hkeep s b s' (List.mem_cons_of_mem _ hb)

/-- Execute a list of actions as long as they are fine. -/
def runWhere (M : System State Action) (ok : State → Action → Prop) [∀ s a, Decidable (ok s a)]
    (s : State) : List Action → Option State
  | [] => some s
  | a :: actions => if ok s a then (M.step s a).bind fun s' => runWhere M ok s' actions else none

theorem run_of_runWhere {test : State → Action → Prop} [∀ s a, Decidable (test s a)]
    {actions : List Action} (h : M.runWhere test s actions = some s') :
    M.run s actions = some s' := by
  induction actions generalizing s with
  | nil => exact h
  | cons a actions ih =>
      simp only [System.runWhere] at h
      by_cases ha : test s a
      · rw [if_pos ha] at h
        obtain ⟨next, hnext, hrest⟩ := Option.bind_eq_some_iff.mp h
        exact Option.bind_eq_some_iff.mpr ⟨next, hnext, ih hrest⟩
      · rw [if_neg ha] at h
        contradiction

/-- A run whose steps pass a stronger test. -/
theorem ReachableWhere.runWhere_of {test : State → Action → Prop} [∀ s a, Decidable (test s a)]
    {actions : List Action} (h : M.ReachableWhere ok s) (htest : ∀ s a, test s a → ok s a)
    (hrun : M.runWhere test s actions = some s') : M.ReachableWhere ok s' := by
  induction actions generalizing s with
  | nil =>
      obtain rfl : s = s' := by simpa [System.runWhere] using hrun
      exact h
  | cons a actions ih =>
      simp only [System.runWhere] at hrun
      by_cases ha : test s a
      · rw [if_pos ha] at hrun
        obtain ⟨next, hnext, hrest⟩ := Option.bind_eq_some_iff.mp hrun
        exact ih (.step h (htest s a ha) hnext) hrest
      · rw [if_neg ha] at hrun
        contradiction

theorem ReachableWhere.runWhere [∀ s a, Decidable (ok s a)] {actions : List Action}
    (h : M.ReachableWhere ok s) (hrun : M.runWhere ok s actions = some s') :
    M.ReachableWhere ok s' :=
  h.runWhere_of (fun _ _ => id) hrun

/-- What `look` sees in the steps of a run. -/
def observe {β : Type*} (M : System State Action) (look : State → Action → Option β) (s : State) :
    List Action → List β
  | [] => []
  | a :: actions =>
    match M.step s a with
    | none => []
    | some s' => (look s a).toList ++ observe M look s' actions

theorem observe_none {β : Type*} (s : State) (actions : List Action) :
    M.observe (fun _ _ => (none : Option β)) s actions = [] := by
  induction actions generalizing s with
  | nil => rfl
  | cons a actions ih =>
      unfold observe
      split
      · rfl
      · exact ih _

/-- What every step keeps in balance a run keeps in balance. -/
theorem Reachable.observe_balance {β γ : Type*} {gain : State → Action → Option β}
    {loss : State → Action → Option γ} {q : β → Bool} {r : γ → Bool} {size : State → ℕ}
    {actions : List Action}
    (hstep : ∀ s a s', M.Reachable s → M.step s a = some s' →
      size s' + (loss s a).toList.countP r = size s + (gain s a).toList.countP q)
    (h : M.Reachable s) (hrun : M.run s actions = some s') :
    size s' + (M.observe loss s actions).countP r =
      size s + (M.observe gain s actions).countP q := by
  induction actions generalizing s with
  | nil =>
      obtain rfl : s = s' := by simpa [System.run] using hrun
      simp [System.observe]
  | cons a actions ih =>
      obtain ⟨next, hnext, hrest⟩ := Option.bind_eq_some_iff.mp hrun
      have hone := hstep s a next h hnext
      have hmore := ih (h.step hnext) hrest
      simp only [System.observe, hnext, List.countP_append]
      omega

/-- A measure that grows by one with every sight of a kind counts these sights. -/
theorem Reachable.observe {β : Type*} {look : State → Action → Option β} {q : β → Bool}
    {size : State → ℕ} {actions : List Action}
    (hstep : ∀ s a s', M.Reachable s → M.step s a = some s' →
      size s' = size s + (look s a).toList.countP q)
    (h : M.Reachable s) (hrun : M.run s actions = some s') :
    size s' = size s + (M.observe look s actions).countP q := by
  have hbalance : size s' + (M.observe (fun _ _ => (none : Option β)) s actions).countP
      (fun _ => true) = size s + (M.observe look s actions).countP q :=
    h.observe_balance (fun s a s' hs hnext => by simpa using hstep s a s' hs hnext) hrun
  rwa [observe_none, List.countP_nil, Nat.add_zero] at hbalance

end System

end Unlog.Library
