import Unlog.Library.Fair

/-! # Simulations

A system implements another one if each of its steps stands for a step of the other or for
nothing. What the other one comes to, it comes to as well. -/

namespace Unlog.Library.System

universe u v w x y z

variable {State : Type u} {Action : Type v} {State' : Type w} {Action' : Type x}
  {State'' : Type y} {Action'' : Type z}

/-- `view` is the state that is shown, `label` the step that is shown, if one is. -/
structure Simulation (M : System State Action) (M' : System State' Action') where
  view : State → State'
  label : State → Action → Option Action'
  initial : ∀ s, M.Initial s → M'.Initial (view s)
  shown : ∀ s a s' b, M.Reachable s → M.step s a = some s' → label s a = some b →
    M'.step (view s) b = some (view s')
  silent : ∀ s a s', M.Reachable s → M.step s a = some s' → label s a = none → view s' = view s

namespace Simulation

variable {M : System State Action} {M' : System State' Action'} {M'' : System State'' Action''}
  {s s' : State}

/-- What a run shows. -/
def labels (F : Simulation M M') (s : State) : List Action → List Action'
  | [] => []
  | a :: actions =>
    (F.label s a).toList ++ (M.step s a).elim [] fun s' => labels F s' actions

theorem run (F : Simulation M M') (hs : M.Reachable s) {actions : List Action}
    (hrun : M.run s actions = some s') :
    M'.run (F.view s) (F.labels s actions) = some (F.view s') := by
  induction actions generalizing s with
  | nil =>
      obtain rfl : s = s' := by simpa [System.run] using hrun
      rfl
  | cons a actions ih =>
      obtain ⟨next, hnext, hrest⟩ := Option.bind_eq_some_iff.mp hrun
      have hlater := ih (hs.step hnext) hrest
      simp only [labels, hnext, Option.elim_some]
      cases hlabel : F.label s a with
      | none =>
          rw [Option.toList_none, List.nil_append, ← F.silent s a next hs hnext hlabel]
          exact hlater
      | some b =>
          rw [Option.toList_some, List.singleton_append]
          exact Option.bind_eq_some_iff.mpr ⟨_, F.shown s a next b hs hnext hlabel, hlater⟩

theorem reachable (F : Simulation M M') (hs : M.Reachable s) : M'.Reachable (F.view s) := by
  induction hs with
  | initial h => exact .initial (F.initial _ h)
  | @step s s' a hs _ hnext ih =>
      have hreach : M.Reachable s := hs
      cases hlabel : F.label s a with
      | none => exact F.silent s a s' hreach hnext hlabel ▸ ih
      | some b => exact ih.step (F.shown s a s' b hreach hnext hlabel)

/-- Through an intermediate level. -/
def comp (F : Simulation M M') (G : Simulation M' M'') : Simulation M M'' where
  view s := G.view (F.view s)
  label s a := (F.label s a).bind (G.label (F.view s))
  initial s hs := G.initial _ (F.initial s hs)
  shown s a s' c hs hnext hlabel := by
    obtain ⟨b, hb, hc⟩ := Option.bind_eq_some_iff.mp hlabel
    exact G.shown _ b _ c (F.reachable hs) (F.shown s a s' b hs hnext hb) hc
  silent s a s' hs hnext hlabel := by
    cases hb : F.label s a with
    | none => exact congrArg G.view (F.silent s a s' hs hnext hb)
    | some b =>
        rw [hb, Option.bind_some] at hlabel
        exact G.silent _ b _ (F.reachable hs) (F.shown s a s' b hs hnext hb) hlabel

/-! ## Endless behaviours -/

section Behaviour

variable {σ : ℕ → State} {ok moves : Action → Prop} {ok' moves' : Action' → Prop}
  (F : Simulation M M') (hs : M.ReachableWhere (fun _ a => ok a) (σ 0)) (h : M.Behaviour ok σ)
include hs h

/-- What is shown of a behaviour is one. -/
theorem behaviour (hok : ∀ s a b, ok a → F.label s a = some b → ok' b) :
    M'.Behaviour ok' fun k => F.view (σ k) := by
  intro k
  have hreach : M.Reachable (σ k) := (h.reachableWhere hs k).reachable
  rcases h k with heq | ⟨a, ha, hnext⟩
  · exact .inl (congrArg F.view heq)
  · cases hlabel : F.label (σ k) a with
    | none => exact .inl (F.silent _ a _ hreach hnext hlabel)
    | some b => exact .inr ⟨b, hok _ a b ha hlabel, F.shown _ a _ b hreach hnext hlabel⟩

/-- Moves that show such moves, and are disabled only where none of these is enabled, pass their
fairness on. -/
theorem weaklyFair (hlabel : ∀ s a, moves a → ∃ b, moves' b ∧ F.label s a = some b)
    (hready : ∀ s b, M.Reachable s → moves' b → (M'.step (F.view s) b).isSome = true →
      ∃ a, moves a ∧ (M.step s a).isSome = true)
    (hfair : M.WeaklyFair σ moves) : M'.WeaklyFair (fun k => F.view (σ k)) moves' := by
  have hreach : ∀ k, M.Reachable (σ k) := fun k => (h.reachableWhere hs k).reachable
  intro k henabled
  obtain ⟨j, a, hkj, ha, hnext⟩ := hfair k fun j hkj => by
    obtain ⟨b, hb, hisSome⟩ := henabled j hkj
    exact hready _ b (hreach j) hb hisSome
  obtain ⟨b, hb, hshows⟩ := hlabel (σ j) a ha
  exact ⟨j, b, hkj, hb, F.shown _ a _ b (hreach j) hnext hshows⟩

end Behaviour

end Simulation

end Unlog.Library.System
