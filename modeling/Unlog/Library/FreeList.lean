import Mathlib

/-! Singly linked lists threaded through an index array, as free lists are. -/

namespace Unlog.Library

/-- `list` is what one meets from an index along `next` until `stop`. -/
inductive Chain (next : ℕ → ℕ) (stop : ℕ) : ℕ → List ℕ → Prop
  | nil : Chain next stop stop []
  | cons {i : ℕ} {list : List ℕ} : i ≠ stop → Chain next stop (next i) list →
      Chain next stop i (i :: list)

namespace Chain

variable {next next' : ℕ → ℕ} {stop i : ℕ} {list : List ℕ}

theorem congr (h : Chain next stop i list) (hnext : ∀ j ∈ list, next' j = next j) :
    Chain next' stop i list := by
  induction h with
  | nil => exact .nil
  | cons hne _ ih =>
      refine .cons hne ?_
      rw [hnext _ (by simp)]
      exact ih fun j hj => hnext j (by simp [hj])

/-- Put an index in front of the list. -/
theorem push {head : ℕ} (h : Chain next stop head list) (hne : i ≠ stop)
    (hlink : next' i = head) (hnext : ∀ j ∈ list, next' j = next j) :
    Chain next' stop i (i :: list) := by
  refine .cons hne ?_
  rw [hlink]
  exact h.congr hnext

/-- Take the first index off the list. -/
theorem pop (h : Chain next stop i list) (hne : i ≠ stop) :
    ∃ rest, list = i :: rest ∧ Chain next stop (next i) rest := by
  cases h with
  | nil => exact absurd rfl hne
  | cons _ hrest => exact ⟨_, rfl, hrest⟩

end Chain

end Unlog.Library
