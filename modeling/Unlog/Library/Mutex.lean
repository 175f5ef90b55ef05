import Unlog.Library.Sleep

/-! # Critical sections

A system in which a whole critical section is one step, carried out by actors that take a mutex,
make the step and give the mutex back. An actor can be stopped anywhere in between, and whoever
wants the mutex then has to wait. -/

namespace Unlog.Library

universe u v w x y

/-- The critical sections of a system: `guard` is the mutex under which an actor makes its next
step, if it makes it under one, and that step is `turn`. -/
structure Sections {State : Type u} {Action : Type v} (M : System State Action) (Actor : Type w)
    (Mutex : Type x) where
  actor : Action → Actor
  guard : State → Actor → Option Mutex
  turn : Actor → Action

/-- An actor is outside of all sections, holds a mutex before its step, or after it. -/
inductive Place (Mutex : Type x) where
  | outside
  | inside (mutex : Mutex)
  | leaving (mutex : Mutex)
  deriving DecidableEq

/-- The mutex an actor holds. -/
def Place.held? {Mutex : Type x} : Place Mutex → Option Mutex
  | .outside => none
  | .inside mutex => some mutex
  | .leaving mutex => some mutex

/-- The steps of taking and giving back a mutex that an actor can make before its next step of the
system. -/
def Place.silent {Mutex : Type x} : Place Mutex → ℕ
  | .outside => 1
  | .inside _ => 0
  | .leaving _ => 2

theorem Place.silent_le {Mutex : Type x} (place : Place Mutex) : place.silent ≤ 2 := by
  cases place <;> simp [Place.silent]

namespace Sections

variable {State : Type u} {Action : Type v} {Actor : Type w} {Mutex : Type x}
  {M : System State Action}

/-- The actors and the mutexes over a state of the system. -/
structure Locked (State : Type u) (Actor : Type w) (Mutex : Type x) where
  state : State
  holder : Mutex → Option Actor := fun _ => none
  place : Actor → Place Mutex := fun _ => .outside

/-- A step outside of all sections, and the three of a section. -/
inductive LockedAction (Action : Type v) (Actor : Type w) where
  | act (a : Action)
  | enter (w : Actor)
  | serve (w : Actor)
  | leave (w : Actor)
  deriving DecidableEq

/-- A step outside of all sections, of that kind. -/
def LockedAction.Of (moves : Action → Prop) (b : LockedAction Action Actor) : Prop :=
  ∃ a, moves a ∧ b = .act a

/-- Whose step it is. -/
def actorOf (S : Sections M Actor Mutex) : LockedAction Action Actor → Actor
  | .act a => S.actor a
  | .enter w => w
  | .serve w => w
  | .leave w => w

/-- The step of the system, if it is one. -/
def act? (S : Sections M Actor Mutex) : LockedAction Action Actor → Option Action
  | .act a => some a
  | .serve w => some (S.turn w)
  | _ => none

/-- Of that kind, if it is a step of the system. -/
def Acts (S : Sections M Actor Mutex) (kind : Action → Prop) (b : LockedAction Action Actor) :
    Prop :=
  ∀ a, S.act? b = some a → kind a

variable [DecidableEq Actor] [DecidableEq Mutex] (S : Sections M Actor Mutex)

/-- An actor that the system disables does not come to its section. -/
def lockedStep (f : Locked State Actor Mutex) :
    LockedAction Action Actor → Option (Locked State Actor Mutex)
  | .act a =>
    if f.place (S.actor a) = .outside ∧ S.guard f.state (S.actor a) = none then
      (M.step f.state a).map fun s => { f with state := s }
    else none
  | .enter w =>
    match f.place w, S.guard f.state w with
    | .outside, some mutex =>
      if f.holder mutex = none ∧ (M.step f.state (S.turn w)).isSome = true then
        some { f with
          holder := Function.update f.holder mutex (some w)
          place := Function.update f.place w (.inside mutex) }
      else none
    | _, _ => none
  | .serve w =>
    match f.place w with
    | .inside mutex =>
      (M.step f.state (S.turn w)).map fun s =>
        { f with state := s, place := Function.update f.place w (.leaving mutex) }
    | _ => none
  | .leave w =>
    match f.place w with
    | .leaving mutex =>
      some { f with
        holder := Function.update f.holder mutex none
        place := Function.update f.place w .outside }
    | _ => none

/-- The same system with mutexes. -/
def locked : System (Locked State Actor Mutex) (LockedAction Action Actor) where
  Initial f := ∃ s, M.Initial s ∧ f = { state := s }
  step := S.lockedStep

/-- What the system has to see to. -/
structure Lawful : Prop where
  own : ∀ w, S.actor (S.turn w) = w
  /-- In a section an actor can do nothing else. -/
  sole : ∀ s a mutex, M.Reachable s → S.guard s (S.actor a) = some mutex →
    (M.step s a).isSome = true → a = S.turn (S.actor a)
  /-- Nobody else moves an actor to a section or out of one. -/
  kept : ∀ s a s' w, M.Reachable s → M.step s a = some s' → S.actor a ≠ w →
    S.guard s' w = S.guard s w
  /-- Only under the same mutex does anybody disable the step of a section. -/
  ready : ∀ s a s' w mutex, M.Reachable s → S.guard s w = some mutex →
    (M.step s (S.turn w)).isSome = true → M.step s a = some s' → S.actor a ≠ w →
    S.guard s (S.actor a) ≠ some mutex → (M.step s' (S.turn w)).isSome = true

variable {S}

/-- What a step of the system with mutexes does. -/
inductive LockedStep (S : Sections M Actor Mutex) (f : Locked State Actor Mutex) :
    LockedAction Action Actor → Locked State Actor Mutex → Prop
  | act {a : Action} {s : State} (hplace : f.place (S.actor a) = .outside)
      (hguard : S.guard f.state (S.actor a) = none) (hstep : M.step f.state a = some s) :
      LockedStep S f (.act a) { f with state := s }
  | enter {w : Actor} {mutex : Mutex} (hplace : f.place w = .outside)
      (hguard : S.guard f.state w = some mutex) (hfree : f.holder mutex = none)
      (hready : (M.step f.state (S.turn w)).isSome = true) :
      LockedStep S f (.enter w) { f with
        holder := Function.update f.holder mutex (some w)
        place := Function.update f.place w (.inside mutex) }
  | serve {w : Actor} {mutex : Mutex} {s : State} (hplace : f.place w = .inside mutex)
      (hstep : M.step f.state (S.turn w) = some s) :
      LockedStep S f (.serve w) { f with
        state := s, place := Function.update f.place w (.leaving mutex) }
  | leave {w : Actor} {mutex : Mutex} (hplace : f.place w = .leaving mutex) :
      LockedStep S f (.leave w) { f with
        holder := Function.update f.holder mutex none
        place := Function.update f.place w .outside }

variable {f f' : Locked State Actor Mutex} {s s' : State} {a : Action} {w u : Actor}
  {mutex : Mutex} {b : LockedAction Action Actor}

theorem lockedStep_cases (hstep : S.locked.step f b = some f') : LockedStep S f b f' := by
  cases b with
  | act a =>
      simp only [locked, lockedStep] at hstep
      split at hstep
      case isFalse => contradiction
      case isTrue hready =>
        obtain ⟨s, hnext, rfl⟩ := Option.map_eq_some_iff.mp hstep
        exact .act hready.1 hready.2 hnext
  | enter w =>
      simp only [locked, lockedStep] at hstep
      split at hstep
      case h_1 mutex hplace hguard =>
        split at hstep
        case isFalse => contradiction
        case isTrue hready =>
          obtain rfl := Option.some.inj hstep
          exact .enter hplace hguard hready.1 hready.2
      case h_2 => contradiction
  | serve w =>
      simp only [locked, lockedStep] at hstep
      split at hstep
      case h_1 mutex hplace =>
        obtain ⟨s, hnext, rfl⟩ := Option.map_eq_some_iff.mp hstep
        exact .serve hplace hnext
      case h_2 => contradiction
  | leave w =>
      simp only [locked, lockedStep] at hstep
      split at hstep
      case h_1 mutex hplace =>
        obtain rfl := Option.some.inj hstep
        exact .leave hplace
      case h_2 => contradiction

/-- Nobody moves another actor into a section or out of one. -/
theorem LockedStep.place_of_ne (hstep : LockedStep S f b f') (hu : S.actorOf b ≠ u) :
    f'.place u = f.place u := by
  cases hstep with
  | act => rfl
  | enter | serve | leave => exact Function.update_of_ne (Ne.symm hu) ..

/-! ## Taking the steps -/

theorem act_step (hplace : f.place (S.actor a) = .outside)
    (hguard : S.guard f.state (S.actor a) = none) (hstep : M.step f.state a = some s) :
    S.locked.step f (.act a) = some { f with state := s } := by
  simp only [locked, lockedStep, hplace, hguard, and_self, if_true, hstep, Option.map_some]

theorem enter_step (hplace : f.place w = .outside) (hguard : S.guard f.state w = some mutex)
    (hfree : f.holder mutex = none) (hready : (M.step f.state (S.turn w)).isSome = true) :
    S.locked.step f (.enter w) = some { f with
      holder := Function.update f.holder mutex (some w)
      place := Function.update f.place w (.inside mutex) } := by
  simp only [locked, lockedStep, hplace, hguard, hfree, hready, and_self, if_true]

theorem serve_step (hplace : f.place w = .inside mutex)
    (hstep : M.step f.state (S.turn w) = some s) :
    S.locked.step f (.serve w) = some { f with
      state := s, place := Function.update f.place w (.leaving mutex) } := by
  simp only [locked, lockedStep, hplace, hstep, Option.map_some]

theorem leave_step (hplace : f.place w = .leaving mutex) :
    S.locked.step f (.leave w) = some { f with
      holder := Function.update f.holder mutex none
      place := Function.update f.place w .outside } := by
  simp only [locked, lockedStep, hplace]

/-- An action of the system is taken as it is. -/
theorem act_ready (h : (S.locked.step f (.act a)).isSome = true) :
    (M.step f.state a).isSome = true := by
  obtain ⟨f', hstep⟩ := Option.isSome_iff_exists.mp h
  cases lockedStep_cases hstep with
  | act _ _ hnext => exact Option.isSome_iff_exists.mpr ⟨_, hnext⟩

/-- An actor enters a section only if it can make the step of the section. -/
theorem enter_ready (h : (S.locked.step f (.enter w)).isSome = true) :
    (M.step f.state (S.turn w)).isSome = true := by
  obtain ⟨f', hstep⟩ := Option.isSome_iff_exists.mp h
  cases lockedStep_cases hstep with
  | enter _ _ _ hready => exact hready

/-- Outside of all sections an actor has none to go on with. -/
theorem rest_of_outside (h : f.place w = .outside) :
    S.locked.step f (.serve w) = none ∧ S.locked.step f (.leave w) = none := by
  simp only [locked, lockedStep, h, and_self]

/-! ## The invariant -/

/-- A mutex is held by the actor that is in a section of it, and an actor that has entered a section
can make the step of the section. -/
structure Sound (S : Sections M Actor Mutex) (f : Locked State Actor Mutex) : Prop where
  reached : M.Reachable f.state
  held : ∀ mutex w, f.holder mutex = some w ↔ (f.place w).held? = some mutex
  inside : ∀ w mutex, f.place w = .inside mutex →
    S.guard f.state w = some mutex ∧ (M.step f.state (S.turn w)).isSome = true

omit [DecidableEq Actor] [DecidableEq Mutex] in
/-- At most one actor is in a section of a mutex. -/
theorem Sound.exclusive (h : Sound S f) (hw : (f.place w).held? = some mutex)
    (hu : (f.place u).held? = some mutex) : w = u :=
  Option.some.inj (((h.held mutex w).mpr hw).symm.trans ((h.held mutex u).mpr hu))

omit [DecidableEq Actor] [DecidableEq Mutex] in
/-- Who holds no mutex is in no section. -/
theorem Sound.outside (h : Sound S f) (hfree : ∀ mutex, f.holder mutex ≠ some w) :
    f.place w = .outside := by
  cases hplace : f.place w with
  | outside => rfl
  | inside mutex | leaving mutex =>
      have hheld := (h.held mutex w).mpr (by rw [hplace]; rfl)
      exact absurd hheld (hfree mutex)

omit [DecidableEq Actor] [DecidableEq Mutex] in
theorem Sound.act (hlaw : S.Lawful) (h : Sound S f) (hplace : f.place (S.actor a) = .outside)
    (hguard : S.guard f.state (S.actor a) = none) (hstep : M.step f.state a = some s') :
    Sound S { f with state := s' } where
  reached := h.reached.step hstep
  held := h.held
  inside w mutex hw := by
    have hne : S.actor a ≠ w := by
      rintro rfl
      rw [hplace] at hw
      contradiction
    obtain ⟨hsection, hready⟩ := h.inside w mutex hw
    refine ⟨(hlaw.kept _ a _ w h.reached hstep hne).trans hsection, ?_⟩
    exact hlaw.ready _ a _ w mutex h.reached hsection hready hstep hne (by simp [hguard])

theorem Sound.enter (h : Sound S f) (hplace : f.place w = .outside)
    (hguard : S.guard f.state w = some mutex) (hfree : f.holder mutex = none)
    (hready : (M.step f.state (S.turn w)).isSome = true) :
    Sound S { f with
      holder := Function.update f.holder mutex (some w)
      place := Function.update f.place w (.inside mutex) } where
  reached := h.reached
  held other u := by
    by_cases hu : u = w
    · subst hu
      by_cases hother : other = mutex
      · subst hother
        simp [Place.held?]
      · have hnot := h.held other u
        rw [hplace] at hnot
        simpa [hother, Ne.symm hother, Place.held?] using hnot
    · by_cases hother : other = mutex
      · subst hother
        have hnot := h.held other u
        rw [hfree] at hnot
        simpa [hu, Ne.symm hu] using hnot
      · simpa [hu, hother] using h.held other u
  inside u other hu := by
    by_cases heq : u = w
    · subst heq
      obtain rfl : mutex = other := by simpa using hu
      exact ⟨hguard, hready⟩
    · exact h.inside u other (by simpa [heq] using hu)

omit [DecidableEq Mutex] in
theorem Sound.serve (hlaw : S.Lawful) (h : Sound S f) (hplace : f.place w = .inside mutex)
    (hstep : M.step f.state (S.turn w) = some s') :
    Sound S { f with state := s', place := Function.update f.place w (.leaving mutex) } where
  reached := h.reached.step hstep
  held other u := by
    by_cases hu : u = w
    · subst hu
      have hheld := h.held other u
      rw [hplace] at hheld
      simpa [Place.held?] using hheld
    · simpa [hu] using h.held other u
  inside u other hu := by
    have hne : u ≠ w := by
      rintro rfl
      simp at hu
    replace hu : f.place u = .inside other := by simpa [hne] using hu
    have hactor : S.actor (S.turn w) ≠ u := by
      rw [hlaw.own]
      exact hne.symm
    obtain ⟨hsection, hready⟩ := h.inside u other hu
    refine ⟨(hlaw.kept _ _ _ u h.reached hstep hactor).trans hsection, ?_⟩
    refine hlaw.ready _ _ _ u other h.reached hsection hready hstep hactor ?_
    -- the two sections are of different mutexes
    rw [hlaw.own, (h.inside w mutex hplace).1]
    rintro hsame
    obtain rfl := Option.some.inj hsame
    exact hne (h.exclusive (by rw [hu]; rfl) (by rw [hplace]; rfl))

theorem Sound.leave (h : Sound S f) (hplace : f.place w = .leaving mutex) :
    Sound S { f with
      holder := Function.update f.holder mutex none
      place := Function.update f.place w .outside } where
  reached := h.reached
  held other u := by
    have hw := (h.held mutex w).mpr (by rw [hplace]; rfl)
    by_cases hu : u = w
    · subst hu
      by_cases hother : other = mutex
      · subst hother
        simp [Place.held?]
      · have hnot := h.held other u
        rw [hplace] at hnot
        simpa [hother, Ne.symm hother, Place.held?] using hnot
    · by_cases hother : other = mutex
      · subst hother
        have hnot := h.held other u
        rw [hw] at hnot
        simpa [hu, Ne.symm hu] using hnot
      · simpa [hu, hother] using h.held other u
  inside u other hu := by
    have hne : u ≠ w := by
      rintro rfl
      simp at hu
    exact h.inside u other (by simpa [hne] using hu)

theorem Sound.step (hlaw : S.Lawful) (h : Sound S f) (hstep : S.locked.step f b = some f') :
    Sound S f' := by
  cases lockedStep_cases hstep with
  | act hplace hguard hnext => exact h.act hlaw hplace hguard hnext
  | enter hplace hguard hfree hready => exact h.enter hplace hguard hfree hready
  | serve hplace hnext => exact h.serve hlaw hplace hnext
  | leave hplace => exact h.leave hplace

theorem sound_of_reachable (hlaw : S.Lawful) (h : S.locked.Reachable f) : Sound S f := by
  refine h.invariant ?_ fun f b f' _ hf hstep => hf.step hlaw hstep
  rintro f ⟨s, hs, rfl⟩
  exact ⟨.initial hs, fun mutex w => by simp [Place.held?], fun w mutex hw => by contradiction⟩

/-! ## Back to the system -/

variable (S) in
/-- What a run has done in the system. -/
def acts (actions : List (LockedAction Action Actor)) : List Action := actions.filterMap S.act?

omit [DecidableEq Actor] [DecidableEq Mutex] in
theorem acts_append (actions rest : List (LockedAction Action Actor)) :
    S.acts (actions ++ rest) = S.acts actions ++ S.acts rest :=
  List.filterMap_append

theorem lockedStep_state (hstep : S.locked.step f b = some f') :
    (∃ a, S.act? b = some a ∧ M.step f.state a = some f'.state) ∨
      S.act? b = none ∧ f'.state = f.state := by
  cases lockedStep_cases hstep with
  | act hplace hguard hnext => exact .inl ⟨_, rfl, hnext⟩
  | serve hplace hnext => exact .inl ⟨_, rfl, hnext⟩
  | enter | leave => exact .inr ⟨rfl, rfl⟩

variable (S) in
/-- The system does all that the one with mutexes does. -/
def simulation : System.Simulation S.locked M where
  view := Locked.state
  label _ := S.act?
  initial := by
    rintro _ ⟨s, hs, rfl⟩
    exact hs
  shown f b f' a _ hstep hlabel := by
    obtain ⟨a', hact, hnext⟩ := (lockedStep_state hstep).resolve_right fun h => by
      rw [h.1] at hlabel
      contradiction
    obtain rfl := Option.some.inj (hact.symm.trans hlabel)
    exact hnext
  silent f b f' _ hstep hlabel :=
    ((lockedStep_state hstep).resolve_left fun ⟨a, hact, _⟩ => by
      rw [hact] at hlabel
      contradiction).2

theorem run_acts {actions : List (LockedAction Action Actor)}
    (hrun : S.locked.run f actions = some f') : M.run f.state (S.acts actions) = some f'.state := by
  induction actions generalizing f with
  | nil =>
      obtain rfl : f = f' := by simpa [System.run] using hrun
      rfl
  | cons b actions ih =>
      obtain ⟨next, hnext, hrest⟩ := Option.bind_eq_some_iff.mp hrun
      have hlater := ih hrest
      rcases lockedStep_state hnext with ⟨a, hact, hstep⟩ | ⟨hact, hstate⟩
      · rw [acts, List.filterMap_cons_some hact]
        exact Option.bind_eq_some_iff.mpr ⟨next.state, hstep, hlater⟩
      · rw [acts, List.filterMap_cons_none hact, ← hstate]
        exact hlater

/-- The system reaches what it reaches with mutexes, by steps of the same kind. -/
theorem reachableWhere_state {kind : Action → Prop}
    (h : S.locked.ReachableWhere (fun _ => S.Acts kind) f) :
    M.ReachableWhere (fun _ a => kind a) f.state := by
  induction h with
  | initial h =>
      obtain ⟨s, hs, rfl⟩ := h
      exact .initial hs
  | step _ hok hstep ih =>
      rcases lockedStep_state hstep with ⟨a, hact, hnext⟩ | ⟨-, hstate⟩
      · exact .step ih (hok a hact) hnext
      · rwa [hstate]

/-- A run all of whose steps of the system are of that kind. -/
theorem reachableWhere_of_run {kind : Action → Prop} {actions : List (LockedAction Action Actor)}
    (h : S.locked.ReachableWhere (fun _ => S.Acts kind) f) (hrun : S.locked.run f actions = some f')
    (hkind : ∀ a ∈ S.acts actions, kind a) :
    S.locked.ReachableWhere (fun _ => S.Acts kind) f' := by
  refine h.run (I := fun _ => True) hrun trivial ?_ fun _ _ _ _ _ _ => trivial
  exact fun _ _ b hb a hact => hkind a (List.mem_filterMap.mpr ⟨b, hb, hact⟩)

theorem behaviour_state {kind : Action → Prop} {σ : ℕ → Locked State Actor Mutex}
    (h : S.locked.Behaviour (S.Acts kind) σ) :
    M.Behaviour kind fun k => (σ k).state := by
  intro k
  rcases h k with heq | ⟨b, hb, hstep⟩
  · exact .inl (congrArg Locked.state heq)
  · rcases lockedStep_state hstep with ⟨a, hact, hnext⟩ | ⟨-, hstate⟩
    · exact .inr ⟨a, hb a hact, hnext⟩
    · exact .inl hstate

/-! ## Who waits, and for whom -/

variable (S) in
/-- The actor can make this step, or one on its way to it. -/
def Proceeds (f : Locked State Actor Mutex) (a : Action) : Prop :=
  ∃ b ∈ [.act a, .enter (S.actor a), .serve (S.actor a), .leave (S.actor a)],
    (S.locked.step f b).isSome = true

instance (a : Action) : Decidable (S.Proceeds f a) :=
  inferInstanceAs (Decidable (∃ b ∈ _, (S.locked.step f b).isSome = true))

variable (S) in
/-- The actor holds the mutex and gives it back in one or two steps of its own. -/
def Frees (f : Locked State Actor Mutex) (w : Actor) (mutex : Mutex) : Prop :=
  f.holder mutex = some w ∧ ∃ actions f', actions.length ≤ 2 ∧ (∀ b ∈ actions, S.actorOf b = w) ∧
    S.locked.run f actions = some f' ∧ f'.holder mutex = none

variable (S) in
/-- The actor waits for a mutex that another one holds and can give back. -/
def Barred (f : Locked State Actor Mutex) (w : Actor) : Prop :=
  ∃ mutex u, S.guard f.state w = some mutex ∧ u ≠ w ∧ S.Frees f u mutex

/-- Nobody waits in a section. -/
theorem Sound.frees (h : Sound S f) (hholder : f.holder mutex = some w) : S.Frees f w mutex := by
  have hplace := (h.held mutex w).mp hholder
  refine ⟨hholder, ?_⟩
  cases hw : f.place w with
  | outside =>
      rw [hw] at hplace
      contradiction
  | inside other =>
      rw [hw] at hplace
      obtain rfl := Option.some.inj hplace
      obtain ⟨s, hstep⟩ := Option.isSome_iff_exists.mp (h.inside w other hw).2
      have hserve := serve_step hw hstep
      have hleaving : (Function.update f.place w (.leaving other)) w = .leaving other :=
        Function.update_self ..
      have hleave : S.locked.step { f with
          state := s, place := Function.update f.place w (.leaving other) } (.leave w) = some _ :=
        leave_step hleaving
      have hrun : S.locked.run f [.serve w, .leave w] = some _ :=
        Option.bind_eq_some_iff.mpr ⟨_, hserve, Option.bind_eq_some_iff.mpr ⟨_, hleave, rfl⟩⟩
      exact ⟨_, _, le_rfl, by simp [actorOf], hrun, Function.update_self ..⟩
  | leaving other =>
      rw [hw] at hplace
      obtain rfl := Option.some.inj hplace
      have hrun : S.locked.run f [.leave w] = some _ :=
        Option.bind_eq_some_iff.mpr ⟨_, leave_step hw, rfl⟩
      exact ⟨[.leave w], _, Nat.le_succ 1, by simp [actorOf], hrun, Function.update_self ..⟩

/-- An actor that the system does not disable can go on, or waits for nothing but a mutex. -/
theorem Sound.proceeds (hlaw : S.Lawful) (h : Sound S f)
    (hready : (M.step f.state a).isSome = true) :
    S.Proceeds f a ∨ S.Barred f (S.actor a) := by
  obtain ⟨s, hstep⟩ := Option.isSome_iff_exists.mp hready
  cases hplace : f.place (S.actor a) with
  | outside =>
      cases hguard : S.guard f.state (S.actor a) with
      | none =>
          exact .inl ⟨.act a, by simp,
            Option.isSome_iff_exists.mpr ⟨_, act_step hplace hguard hstep⟩⟩
      | some mutex =>
          have hturn := hlaw.sole _ a mutex h.reached hguard hready
          rw [hturn] at hready
          cases hholder : f.holder mutex with
          | none =>
              have henter := enter_step hplace hguard hholder hready
              exact .inl ⟨.enter _, by simp, Option.isSome_iff_exists.mpr ⟨_, henter⟩⟩
          | some u =>
              refine .inr ⟨mutex, u, hguard, ?_, h.frees hholder⟩
              rintro rfl
              have hheld := (h.held mutex _).mp hholder
              rw [hplace] at hheld
              contradiction
  | inside mutex =>
      obtain ⟨s', hnext⟩ := Option.isSome_iff_exists.mp (h.inside _ mutex hplace).2
      exact .inl ⟨.serve _, by simp, Option.isSome_iff_exists.mpr ⟨_, serve_step hplace hnext⟩⟩
  | leaving mutex =>
      exact .inl ⟨.leave _, by simp, Option.isSome_iff_exists.mpr ⟨_, leave_step hplace⟩⟩

/-! ## Counting steps -/

theorem LockedStep.silent_le (hlaw : S.Lawful) (hstep : LockedStep S f b f') :
    [b].countP (fun b => S.actorOf b = w) + (f'.place w).silent ≤
      3 * (S.acts [b]).countP (fun a => S.actor a = w) + (f.place w).silent := by
  by_cases hw : S.actorOf b = w
  · rw [List.countP_cons_of_pos (by simpa using hw), List.countP_nil]
    cases hstep with
    | act =>
        simp only [actorOf] at hw
        simp only [acts, act?, List.filterMap_cons, List.filterMap_nil, List.countP_cons, hw,
          List.countP_nil, decide_true, if_true]
        omega
    | enter hplace | leave hplace =>
        simp only [actorOf] at hw
        subst hw
        simp only [hplace, Function.update_self, Place.silent]
        omega
    | serve hplace =>
        simp only [actorOf] at hw
        subst hw
        simp [acts, act?, hlaw.own, hplace, Place.silent]
  · rw [List.countP_cons_of_neg (by simpa using hw), List.countP_nil]
    rw [hstep.place_of_ne hw]
    omega

/-- To each of its steps an actor adds no more than taking and giving back a mutex. -/
theorem countP_le (hlaw : S.Lawful) {actions : List (LockedAction Action Actor)}
    (hrun : S.locked.run f actions = some f') :
    actions.countP (fun b => S.actorOf b = w) + (f'.place w).silent ≤
      3 * (S.acts actions).countP (fun a => S.actor a = w) + (f.place w).silent := by
  induction actions generalizing f with
  | nil =>
      obtain rfl : f = f' := by simpa [System.run] using hrun
      simp [acts]
  | cons b actions ih =>
      obtain ⟨next, hnext, hrest⟩ := Option.bind_eq_some_iff.mp hrun
      have hone := (lockedStep_cases hnext).silent_le (w := w) hlaw
      have hlater := ih hrest
      rw [← List.singleton_append, acts_append, List.countP_append, List.countP_append]
      omega

/-! ## Alone -/

/-- Nobody else holds a mutex that the actor ever takes. -/
def Unhindered (S : Sections M Actor Mutex) (f : Locked State Actor Mutex) (w : Actor) : Prop :=
  ∀ mutex u s, f.holder mutex = some u → S.guard s w = some mutex → u = w

/-- By itself and within so many steps an actor brings the system to `s`, and then it is in no
section. -/
structure Alone (S : Sections M Actor Mutex) (f : Locked State Actor Mutex) (w : Actor)
    (limit : ℕ) (s : State) (f' : Locked State Actor Mutex) : Prop where
  reaches : ∃ actions, actions.length ≤ limit ∧ (∀ b ∈ actions, S.actorOf b = w) ∧
    S.locked.run f actions = some f'
  state : f'.state = s
  outside : f'.place w = .outside
  holder : ∀ mutex u, f'.holder mutex = some u → u = w ∨ f.holder mutex = some u

theorem Alone.trans {limit limit' : ℕ} {f'' : Locked State Actor Mutex}
    (h : Alone S f w limit s f') (h' : Alone S f' w limit' s' f'') :
    Alone S f w (limit + limit') s' f'' := by
  obtain ⟨actions, hlength, hown, hrun⟩ := h.reaches
  obtain ⟨rest, hlength', hown', hrun'⟩ := h'.reaches
  refine ⟨⟨actions ++ rest, ?_, ?_, ?_⟩, h'.state, h'.outside, fun mutex u hu =>
    (h'.holder mutex u hu).elim .inl (h.holder mutex u)⟩
  · rw [List.length_append]
    omega
  · exact fun b hb => (List.mem_append.mp hb).elim (hown b) (hown' b)
  · rw [System.run_append, hrun]
    exact hrun'

theorem alone_leave (hplace : f.place w = .leaving mutex) : ∃ f', Alone S f w 1 f.state f' := by
  refine ⟨_, ⟨⟨[.leave w], le_rfl, by simp [actorOf],
    Option.bind_eq_some_iff.mpr ⟨_, leave_step hplace, rfl⟩⟩, rfl, Function.update_self .., ?_⟩⟩
  intro other u hu
  by_cases hother : other = mutex
  · simp [hother] at hu
  · exact .inr (by simpa [hother] using hu)

/-- One step more at the beginning. -/
theorem Alone.cons {limit : ℕ} {next : Locked State Actor Mutex} (h : Alone S next w limit s f')
    (hstep : S.locked.step f b = some next) (hb : S.actorOf b = w)
    (hholder : ∀ mutex u, next.holder mutex = some u → u = w ∨ f.holder mutex = some u) :
    Alone S f w (limit + 1) s f' := by
  obtain ⟨actions, hlength, hown, hrun⟩ := h.reaches
  refine ⟨⟨b :: actions, Nat.succ_le_succ hlength, ?_,
    Option.bind_eq_some_iff.mpr ⟨next, hstep, hrun⟩⟩, h.state, h.outside, fun mutex u hu =>
    (h.holder mutex u hu).elim .inl (hholder mutex u)⟩
  simpa [hb] using hown

theorem alone_serve (hplace : f.place w = .inside mutex)
    (hstep : M.step f.state (S.turn w) = some s') : ∃ f', Alone S f w 2 s' f' := by
  have hleaving : (Function.update f.place w (.leaving mutex)) w = .leaving mutex :=
    Function.update_self ..
  obtain ⟨f', hleave⟩ : ∃ f', Alone S { f with
      state := s', place := Function.update f.place w (.leaving mutex) } w 1 s' f' :=
    alone_leave hleaving
  exact ⟨f', hleave.cons (serve_step hplace hstep) rfl fun _ _ => .inr⟩

/-- From outside of all sections. -/
theorem alone_step (hplace : f.place w = .outside) (hown : S.actor (S.turn w) = w)
    (hfree : ∀ mutex, S.guard f.state w = some mutex → f.holder mutex = none)
    (hstep : M.step f.state (S.turn w) = some s') : ∃ f', Alone S f w 3 s' f' := by
  cases hguard : S.guard f.state w with
  | none =>
      have hact : S.locked.step f (.act (S.turn w)) = some { f with state := s' } :=
        act_step (hown.symm ▸ hplace) (hown.symm ▸ hguard) hstep
      exact ⟨_, ⟨⟨[.act (S.turn w)], by simp, by simpa [actorOf] using hown,
        Option.bind_eq_some_iff.mpr ⟨_, hact, rfl⟩⟩, rfl, hplace, fun _ _ => .inr⟩⟩
  | some mutex =>
      have henter := enter_step hplace hguard (hfree mutex hguard)
        (Option.isSome_iff_exists.mpr ⟨s', hstep⟩)
      have hinside : (Function.update f.place w (.inside mutex)) w = .inside mutex :=
        Function.update_self ..
      obtain ⟨f', hserve⟩ : ∃ f', Alone S { f with
          holder := Function.update f.holder mutex (some w)
          place := Function.update f.place w (.inside mutex) } w 2 s' f' :=
        alone_serve hinside hstep
      refine ⟨f', hserve.cons henter rfl fun other u hu => ?_⟩
      by_cases hother : other = mutex
      · subst hother
        exact .inl (by simpa using hu.symm)
      · exact .inr (by simpa [hother] using hu)

theorem Alone.reachable {limit : ℕ} (halone : Alone S f w limit s f')
    (h : S.locked.Reachable f) : S.locked.Reachable f' := by
  obtain ⟨actions, -, -, hrun⟩ := halone.reaches
  exact h.run hrun

theorem Unhindered.alone {limit : ℕ} (hfree : Unhindered S f w)
    (halone : Alone S f w limit s f') : Unhindered S f' w := fun mutex u s hu hguard =>
  (halone.holder mutex u hu).elim id fun hold => hfree mutex u s hold hguard

/-- Step by step, with the mutex of each taken and given back. -/
theorem alone_run (hlaw : S.Lawful) {k : ℕ} (h : S.locked.Reachable f)
    (hplace : f.place w = .outside) (hfree : Unhindered S f w)
    (hrun : M.run f.state (List.replicate k (S.turn w)) = some s') :
    ∃ f', Alone S f w (3 * k) s' f' := by
  induction k generalizing f with
  | zero =>
      obtain rfl : f.state = s' := by simpa [System.run] using hrun
      exact ⟨f, ⟨⟨[], le_rfl, by simp, rfl⟩, rfl, hplace, fun _ _ => .inr⟩⟩
  | succ k ih =>
      obtain ⟨next, hnext, hrest⟩ := Option.bind_eq_some_iff.mp hrun
      have hmutex : ∀ mutex, S.guard f.state w = some mutex → f.holder mutex = none := by
        intro mutex hguard
        by_contra hheld
        obtain ⟨u, hu⟩ := Option.ne_none_iff_exists'.mp hheld
        obtain rfl := hfree mutex u _ hu hguard
        have hinside := ((sound_of_reachable hlaw h).held mutex u).mp hu
        rw [hplace] at hinside
        contradiction
      obtain ⟨middle, hone⟩ := alone_step hplace (hlaw.own w) hmutex hnext
      obtain ⟨f', hmore⟩ := ih (hone.reachable h) hone.outside (hfree.alone hone)
        (hone.state ▸ hrest)
      refine ⟨f', ?_⟩
      rw [Nat.mul_succ, Nat.add_comm]
      exact hone.trans hmore

/-- What an actor could do alone without mutexes it can do alone with them, if nobody else holds
one of its mutexes. -/
theorem alone_of_run (hlaw : S.Lawful) {k : ℕ} (h : S.locked.Reachable f)
    (hfree : Unhindered S f w) (hrun : M.run f.state (List.replicate k (S.turn w)) = some s') :
    ∃ actions f', actions.length ≤ 3 * k + 1 ∧ (∀ b ∈ actions, S.actorOf b = w) ∧
      S.locked.run f actions = some f' ∧ f'.state = s' := by
  have hlater : ∀ {limit n next middle}, Alone S f w limit next middle → limit + 3 * n ≤ 3 * k + 1 →
      M.run next (List.replicate n (S.turn w)) = some s' →
      ∃ actions f', actions.length ≤ 3 * k + 1 ∧ (∀ b ∈ actions, S.actorOf b = w) ∧
        S.locked.run f actions = some f' ∧ f'.state = s' := by
    intro limit n next middle hone hle hrest
    obtain ⟨f', hmore⟩ := alone_run hlaw (hone.reachable h) hone.outside (hfree.alone hone)
      (hone.state ▸ hrest)
    obtain ⟨actions, hlength, hown, hall⟩ := (hone.trans hmore).reaches
    exact ⟨actions, f', hlength.trans hle, hown, hall, hmore.state⟩
  cases hplace : f.place w with
  | outside =>
      obtain ⟨f', halone⟩ := alone_run hlaw h hplace hfree hrun
      obtain ⟨actions, hlength, hown, hall⟩ := halone.reaches
      exact ⟨actions, f', Nat.le_succ_of_le hlength, hown, hall, halone.state⟩
  | inside mutex =>
      cases k with
      | zero => exact ⟨[], f, Nat.zero_le _, by simp, rfl, by simpa [System.run] using hrun⟩
      | succ n =>
          obtain ⟨next, hnext, hrest⟩ := Option.bind_eq_some_iff.mp hrun
          obtain ⟨middle, hone⟩ := alone_serve hplace hnext
          exact hlater hone (by omega) hrest
  | leaving mutex =>
      obtain ⟨middle, hone⟩ := alone_leave hplace
      exact hlater hone (by omega) hrun

/-! ## Fairness -/

section Behaviour

variable {σ : ℕ → Locked State Actor Mutex} {ok : LockedAction Action Actor → Prop}
  {moves : Action → Prop}

variable (S) in
/-- Nobody is stopped for ever in a section. -/
structure GoesOn (σ : ℕ → Locked State Actor Mutex) : Prop where
  serve : ∀ u, S.locked.WeaklyFair σ (· = .serve u)
  leave : ∀ u, S.locked.WeaklyFair σ (· = .leave u)

theorem LockedStep.of_inside (hstep : LockedStep S f b f') (h : f.place u = .inside mutex) :
    f'.place u = .leaving mutex ∧ b = .serve u ∨ f'.place u = .inside mutex ∧ b ≠ .serve u := by
  by_cases hu : S.actorOf b = u
  · cases hstep with
    | act hplace | enter hplace | leave hplace =>
        simp only [actorOf] at hu
        rw [hu, h] at hplace
        contradiction
    | serve hplace =>
        simp only [actorOf] at hu
        subst hu
        obtain rfl := Place.inside.inj (hplace.symm.trans h)
        exact .inl ⟨Function.update_self .., rfl⟩
  · refine .inr ⟨(hstep.place_of_ne hu).trans h, ?_⟩
    rintro rfl
    exact hu rfl

theorem LockedStep.of_leaving (hstep : LockedStep S f b f') (h : f.place u = .leaving mutex) :
    f'.place u = .outside ∧ f'.holder mutex = none ∨
      f'.place u = .leaving mutex ∧ b ≠ .leave u := by
  by_cases hu : S.actorOf b = u
  · cases hstep with
    | act hplace | enter hplace | serve hplace =>
        simp only [actorOf] at hu
        rw [hu, h] at hplace
        contradiction
    | leave hplace =>
        simp only [actorOf] at hu
        subst hu
        obtain rfl := Place.leaving.inj (hplace.symm.trans h)
        exact .inl ⟨Function.update_self .., Function.update_self ..⟩
  · refine .inr ⟨(hstep.place_of_ne hu).trans h, ?_⟩
    rintro rfl
    exact hu rfl

theorem LockedStep.of_outside (hstep : LockedStep S f b f') (h : f.place u = .outside) :
    f'.place u = .outside ∨ ∃ mutex, f'.place u = .inside mutex ∧ b = .enter u := by
  by_cases hu : S.actorOf b = u
  · cases hstep with
    | act => exact .inl h
    | enter =>
        simp only [actorOf] at hu
        subst hu
        exact .inr ⟨_, Function.update_self .., rfl⟩
    | serve hplace | leave hplace =>
        simp only [actorOf] at hu
        rw [hu, h] at hplace
        contradiction
  · exact .inl ((hstep.place_of_ne hu).trans h)

section Holders

variable (hlaw : S.Lawful) (hstart : S.locked.Reachable (σ 0)) (h : S.locked.Behaviour ok σ)
  (hgoes : S.GoesOn σ)
include hlaw hstart h hgoes

theorem leadsTo_leaving (u : Actor) (mutex : Mutex) :
    LeadsTo σ (fun f => f.place u = .inside mutex) fun f => f.place u = .leaving mutex := by
  have hsound : ∀ k, Sound S (σ k) := fun k =>
    sound_of_reachable hlaw ((h.mono fun _ _ => trivial).reachableWhere hstart k)
  refine h.leadsTo_of_size (fun _ => 0) hsound (hgoes.serve u) ?_ ?_ ?_
  · intro f hf hplace
    obtain ⟨s, hstep⟩ := Option.isSome_iff_exists.mp (hf.inside u mutex hplace).2
    exact ⟨_, rfl, Option.isSome_iff_exists.mpr ⟨_, serve_step hplace hstep⟩⟩
  · intro f b f' _ hplace _ hstep
    exact ((lockedStep_cases hstep).of_inside hplace).imp And.left fun hsame => ⟨hsame.1, le_rfl⟩
  · rintro f _ f' - hplace rfl hstep
    exact .inl (((lockedStep_cases hstep).of_inside hplace).resolve_right fun hsame => hsame.2 rfl).1

omit hlaw hstart in
theorem leadsTo_outside (u : Actor) (mutex : Mutex) :
    LeadsTo σ (fun f => f.place u = .leaving mutex)
      fun f => f.place u = .outside ∧ f.holder mutex = none := by
  refine h.leadsTo_of_size (I := fun _ => True) (fun _ => 0) (fun _ => trivial) (hgoes.leave u)
    ?_ ?_ ?_
  · intro f _ hplace
    exact ⟨_, rfl, Option.isSome_iff_exists.mpr ⟨_, leave_step hplace⟩⟩
  · intro f b f' _ hplace _ hstep
    exact ((lockedStep_cases hstep).of_leaving hplace).imp_right fun hsame => ⟨hsame.1, le_rfl⟩
  · rintro f _ f' - hplace rfl hstep
    exact .inl (((lockedStep_cases hstep).of_leaving hplace).resolve_right fun hsame => hsame.2 rfl)

/-- Every mutex is free again and again. -/
theorem leadsTo_free (mutex : Mutex) :
    LeadsTo σ (fun _ => True) fun f => f.holder mutex = none := by
  intro k _
  have hsound := sound_of_reachable hlaw ((h.mono fun _ _ => trivial).reachableWhere hstart k)
  cases hholder : (σ k).holder mutex with
  | none => exact ⟨k, le_rfl, hholder⟩
  | some u =>
      have hheld := (hsound.held mutex u).mp hholder
      have houtside := leadsTo_outside h hgoes u mutex
      cases hplace : (σ k).place u with
      | outside =>
          rw [hplace] at hheld
          contradiction
      | inside other =>
          rw [hplace] at hheld
          obtain rfl := Option.some.inj hheld
          obtain ⟨j, hkj, hj⟩ :=
            ((leadsTo_leaving hlaw hstart h hgoes u other).trans houtside) k hplace
          exact ⟨j, hkj, hj.2⟩
      | leaving other =>
          rw [hplace] at hheld
          obtain rfl := Option.some.inj hheld
          obtain ⟨j, hkj, hj⟩ := houtside k hplace
          exact ⟨j, hkj, hj.2⟩

end Holders

/-! An actor that takes no step of the system any more stays out of all sections. -/

section Quiet

variable (hlaw : S.Lawful) (hsound : ∀ i, Sound S (σ i)) (h : S.locked.Behaviour ok σ)
  (hgoes : S.GoesOn σ) {k : ℕ}
  (hquiet : ∀ i a, k ≤ i → S.actor a = w → M.step (σ i).state a ≠ some (σ (i + 1)).state)
include hlaw hsound h hquiet

theorem guard_of_quiet (i : ℕ) (hki : k ≤ i) :
    S.guard (σ i).state w = S.guard (σ k).state w := by
  induction i, hki using Nat.le_induction with
  | base => rfl
  | succ i hki ih =>
      rcases h i with heq | ⟨b, -, hstep⟩
      · rw [heq, ih]
      · rcases lockedStep_state hstep with ⟨a, -, hnext⟩ | ⟨-, hstate⟩
        · rw [hlaw.kept _ a _ w (hsound i).reached hnext fun hw => hquiet i a hki hw hnext, ih]
        · rw [hstate, ih]

include hgoes

theorem not_inside_of_quiet (i : ℕ) (mutex : Mutex) (hki : k ≤ i) :
    (σ i).place w ≠ .inside mutex := by
  intro hinside
  have hserve : ∀ j, i ≤ j → S.locked.step (σ j) (.serve w) ≠ some (σ (j + 1)) := by
    intro j hij hstep
    obtain ⟨a, hact, hnext⟩ := (lockedStep_state hstep).resolve_right (by simp [act?])
    obtain rfl := Option.some.inj hact
    exact hquiet j _ (hki.trans hij) (hlaw.own w) hnext
  have hstays : ∀ j, i ≤ j → (σ j).place w = .inside mutex := by
    intro j hij
    induction j, hij using Nat.le_induction with
    | base => exact hinside
    | succ j hij ih =>
        rcases h j with heq | ⟨b, -, hstep⟩
        · rwa [heq]
        · rcases (lockedStep_cases hstep).of_inside ih with ⟨-, rfl⟩ | ⟨hplace, -⟩
          · exact absurd hstep (hserve j hij)
          · exact hplace
  obtain ⟨j, _, hij, rfl, hstep⟩ := hgoes.serve w i fun j hij => by
    obtain ⟨s, hnext⟩ := Option.isSome_iff_exists.mp ((hsound j).inside w mutex (hstays j hij)).2
    exact ⟨_, rfl, Option.isSome_iff_exists.mpr ⟨_, serve_step (hstays j hij) hnext⟩⟩
  exact hserve j hij hstep

theorem outside_of_quiet : ∃ n, k ≤ n ∧ ∀ i, n ≤ i → (σ i).place w = .outside := by
  have hnever : ∀ i mutex, k ≤ i → (σ i).place w ≠ .inside mutex :=
    not_inside_of_quiet hlaw hsound h hgoes hquiet
  obtain ⟨n, hkn, hn⟩ : ∃ n, k ≤ n ∧ (σ n).place w = .outside := by
    cases hplace : (σ k).place w with
    | outside => exact ⟨k, le_rfl, hplace⟩
    | inside mutex => exact absurd hplace (hnever k mutex le_rfl)
    | leaving mutex =>
        obtain ⟨n, hkn, hn⟩ := leadsTo_outside h hgoes w mutex k hplace
        exact ⟨n, hkn, hn.1⟩
  refine ⟨n, hkn, fun i hni => ?_⟩
  induction i, hni using Nat.le_induction with
  | base => exact hn
  | succ i hni ih =>
      rcases h i with heq | ⟨b, -, hstep⟩
      · rwa [heq]
      · refine ((lockedStep_cases hstep).of_outside ih).resolve_right ?_
        rintro ⟨mutex, hinside, -⟩
        exact hnever (i + 1) mutex (by omega) hinside

end Quiet

/-- Mutexes keep nobody from its turn: moves of one actor that are not put off for ever where no
mutex bars them are not put off for ever in the system, if nobody is stopped in a section and the
actor some day gets a mutex that is free again and again. -/
theorem weaklyFair_state (hlaw : S.Lawful) (hstart : S.locked.Reachable (σ 0))
    (h : S.locked.Behaviour ok σ) (hgoes : S.GoesOn σ)
    (henter : S.locked.StronglyFair σ (· = .enter w) ∨
      ∀ s a, moves a → (M.step s a).isSome = true → S.guard s w = none)
    (hactor : ∀ a, moves a → S.actor a = w)
    (hsame : ∀ s a b, M.Reachable s → moves a → (M.step s a).isSome = true → S.actor b = w →
      (M.step s b).isSome = true → moves b)
    (hact : S.locked.WeaklyFair σ (·.Of moves)) :
    M.WeaklyFair (fun k => (σ k).state) moves := by
  intro k hready
  by_contra hnone
  have hsound : ∀ i, Sound S (σ i) := fun i =>
    sound_of_reachable hlaw ((h.mono fun _ _ => trivial).reachableWhere hstart i)
  -- none of the moves is taken, so the actor takes no step of the system at all
  have hquiet : ∀ i a, k ≤ i → S.actor a = w → M.step (σ i).state a ≠ some (σ (i + 1)).state := by
    intro i a hki hw hnext
    obtain ⟨move, hmove, hisSome⟩ := hready i hki
    exact hnone ⟨i, a, hki, hsame _ move a (hsound i).reached hmove hisSome hw
      (Option.isSome_iff_exists.mpr ⟨_, hnext⟩), hnext⟩
  have hguard := guard_of_quiet hlaw hsound h hquiet
  obtain ⟨n, hkn, hout⟩ := outside_of_quiet hlaw hsound h hgoes hquiet
  cases hmutex : S.guard (σ k).state w with
  | none =>
      obtain ⟨j, _, hnj, ⟨a, ha, rfl⟩, hstep⟩ := hact n fun j hnj => by
        obtain ⟨a, ha, hisSome⟩ := hready j (hkn.trans hnj)
        obtain ⟨s, hnext⟩ := Option.isSome_iff_exists.mp hisSome
        have hfree : S.guard (σ j).state (S.actor a) = none := by
          rw [hactor a ha, hguard j (hkn.trans hnj), hmutex]
        exact ⟨.act a, ⟨a, ha, rfl⟩, Option.isSome_iff_exists.mpr
          ⟨_, act_step (hactor a ha ▸ hout j hnj) hfree hnext⟩⟩
      obtain ⟨_, hact, hnext⟩ := (lockedStep_state hstep).resolve_right (by simp [act?])
      obtain rfl := Option.some.inj hact
      exact hquiet j a (hkn.trans hnj) (hactor a ha) hnext
  | some mutex =>
      have hfair := henter.resolve_right fun hnever => by
        obtain ⟨a, ha, hisSome⟩ := hready k le_rfl
        rw [hnever _ a ha hisSome] at hmutex
        contradiction
      obtain ⟨j, _, hnj, rfl, hstep⟩ := hfair n fun j hnj => by
        obtain ⟨i, hji, hholder⟩ := leadsTo_free hlaw hstart h hgoes mutex j trivial
        have hki : k ≤ i := (hkn.trans hnj).trans hji
        have hbarred := (hguard i hki).trans hmutex
        obtain ⟨a, ha, hisSome⟩ := hready i hki
        have hturn := hlaw.sole _ a mutex (hsound i).reached (hactor a ha ▸ hbarred) hisSome
        rw [hturn, hactor a ha] at hisSome
        exact ⟨i, hji, _, rfl, Option.isSome_iff_exists.mpr
          ⟨_, enter_step (hout i (hnj.trans hji)) hbarred hholder hisSome⟩⟩
      -- it has entered its section after all
      have hplace := hout (j + 1) (by omega)
      have henter : LockedStep S (σ j) (.enter w) (σ (j + 1)) := lockedStep_cases hstep
      generalize σ (j + 1) = after at henter hplace
      cases henter with
      | enter => simp at hplace

end Behaviour

/-! ## Over sleeping actors -/

section Sleepy

variable {Word : Type y} [DecidableEq Word] {W : Waits State Action Actor Word}

/-- Whose step it is. -/
def actorOfSleepy (W : Waits State Action Actor Word) : Waits.SleepyAction Action Actor → Actor
  | .act a => W.actor a
  | .load w => w
  | .compare w => w
  | .notify w _ => w

/-- The same sections in the program with waits and notifications; a notification that is owed comes
before the next section. -/
def sleepy (S : Sections W.base Actor Mutex) : Sections W.sleepy Actor Mutex where
  actor := actorOfSleepy W
  guard f w := if f.owes w = none then S.guard f.state w else none
  turn w := .act (S.turn w)

/-- What the others leave alone. -/
theorem others_of_sleepyStep {g g' : Waits.Sleepy State Actor Word}
    {c : Waits.SleepyAction Action Actor} (hstep : Waits.SleepyStep W g c g')
    (hw : actorOfSleepy W c ≠ w) :
    g'.owes w = g.owes w ∧ (g.mode w = .awake → g'.mode w = .awake) := by
  have howes : ∀ owed, Function.update g.owes (actorOfSleepy W c) owed w = g.owes w :=
    fun owed => Function.update_of_ne hw.symm ..
  have hmode : ∀ mode, Function.update g.mode (actorOfSleepy W c) mode w = g.mode w :=
    fun mode => Function.update_of_ne hw.symm ..
  cases hstep with
  | act => exact ⟨howes _, id⟩
  | load | sleep | rise => exact ⟨rfl, fun h => (hmode _).trans h⟩
  | notifyAll =>
      refine ⟨howes _, fun h => ?_⟩
      dsimp only
      split
      · rw [h]
        rfl
      · exact h
  | notifyNone => exact ⟨howes _, id⟩
  | @notifyOne _ u =>
      refine ⟨howes _, fun h => ?_⟩
      by_cases hu : w = u
      · subst hu
        simp [h, Mode.woken]
      · simpa [hu] using h

omit [DecidableEq Mutex] in
theorem sleepy_guard {S : Sections W.base Actor Mutex} {g : Waits.Sleepy State Actor Word} :
    S.sleepy.guard g w = some mutex ↔ g.owes w = none ∧ S.guard g.state w = some mutex := by
  simp [sleepy]

omit [DecidableEq Mutex] in
theorem sleepy_lawful {S : Sections W.base Actor Mutex} (hlaw : S.Lawful)
    (hactor : S.actor = W.actor)
    (hapart : ∀ s w mutex, S.guard s w = some mutex → W.waits s w = none) : S.sleepy.Lawful := by
  obtain ⟨actor, guard, turn⟩ := S
  obtain rfl : actor = W.actor := hactor
  have hreach : ∀ {g}, W.sleepy.Reachable g → W.base.Reachable g.state := W.simulation.reachable
  refine ⟨hlaw.own, ?_, ?_, ?_⟩
  · intro g c mutex hg hsection hisSome
    obtain ⟨howes, hsection⟩ := sleepy_guard.mp hsection
    obtain ⟨g', hstep⟩ := Option.isSome_iff_exists.mp hisSome
    have hnowait := hapart _ _ _ hsection
    cases Waits.sleepyStep_cases hstep with
    | act hawake hown hnext =>
        exact congrArg Waits.SleepyAction.act (hlaw.sole _ _ mutex (hreach hg) hsection
          (Option.isSome_iff_exists.mpr ⟨_, hnext⟩))
    | load _ _ hwaits | sleep _ hwaits | rise _ hwaits =>
        cases hnowait.symm.trans hwaits
    | notifyAll howed | notifyNone howed | notifyOne howed =>
        cases howes.symm.trans howed
  · intro g c g' w hg hstep hw
    simp only [sleepy, (others_of_sleepyStep (Waits.sleepyStep_cases hstep) hw).1]
    rcases Waits.sleepyStep_state hstep with ⟨a, rfl, hnext⟩ | ⟨-, hstate⟩
    · have hkept : guard g'.state w = guard g.state w := hlaw.kept _ a _ w (hreach hg) hnext hw
      rw [hkept]
    · rw [hstate]
  · intro g c g' w mutex hg hsection hisSome hstep hw hother
    obtain ⟨howes, hsection⟩ := sleepy_guard.mp hsection
    obtain ⟨⟨hawake, -⟩, hready⟩ := Waits.act_enabled.mp hisSome
    obtain ⟨howes', hawake'⟩ := others_of_sleepyStep (Waits.sleepyStep_cases hstep) hw
    have hturn : W.actor (turn w) = w := hlaw.own w
    refine Waits.act_enabled.mpr ?_
    rw [hturn] at hawake ⊢
    refine ⟨⟨hawake' hawake, howes'.trans howes⟩, ?_⟩
    cases Waits.sleepyStep_cases hstep with
    | act _ hown hnext =>
        exact hlaw.ready _ _ _ w mutex (hreach hg) hsection hready hnext hw
          fun hsame => hother (sleepy_guard.mpr ⟨hown, hsame⟩)
    | _ => exact hready

/-! Fairness through both levels. -/

section Behaviour

variable {S : Sections W.base Actor Mutex} {g g' : Waits.Sleepy State Actor Word}
  {c c' : Waits.SleepyAction Action Actor} {moves : Action → Prop}

omit [DecidableEq Mutex] in
/-- An awake actor that can make a step of the system can make no other kind of step. -/
theorem of_sole (hlaw : W.Lawful) (hg : W.sleepy.Reachable g) (hc : c.Of moves)
    (hsame : ∀ a b, moves a → (W.base.step g.state a).isSome = true → W.actor b = W.actor a →
      (W.base.step g.state b).isSome = true → moves b)
    (hisSome : (W.sleepy.step g c).isSome = true)
    (hactor : actorOfSleepy W c' = actorOfSleepy W c)
    (hnext : (W.sleepy.step g c').isSome = true) : c'.Of moves := by
  obtain ⟨a, ha, rfl⟩ := hc
  obtain ⟨⟨hawake, howes⟩, hready⟩ := Waits.act_enabled.mp hisSome
  obtain ⟨g', hstep⟩ := Option.isSome_iff_exists.mp hnext
  cases Waits.sleepyStep_cases hstep with
  | act _ _ hact =>
      exact ⟨_, hsame a _ ha hready hactor (Option.isSome_iff_exists.mpr ⟨_, hact⟩), rfl⟩
  | load _ _ hwaits hstays =>
      obtain rfl := hactor
      have hstuck : W.base.step g.state a = none :=
        hlaw.stuck _ a _ _ (W.simulation.reachable hg) hwaits hstays
      rw [hstuck] at hready
      contradiction
  | sleep hmode | rise hmode =>
      obtain rfl := hactor
      cases hawake.symm.trans hmode
  | notifyAll howed | notifyNone howed | notifyOne howed =>
      obtain rfl := hactor
      cases howes.symm.trans howed

theorem waits_of_compare (hstep : W.sleepyStep g (.compare w) = some g') :
    ∃ old word stays, g.mode w = .loaded old ∧ W.waits g.state w = some (word, stays) := by
  cases Waits.sleepyStep_cases hstep with
  | sleep hmode hwaits | rise hmode hwaits => exact ⟨_, _, _, hmode, hwaits⟩

theorem owes_of_notify {picked : ℕ} (hstep : W.sleepyStep g (.notify w picked) = some g') :
    ∃ word, g.owes w = some word := by
  cases Waits.sleepyStep_cases hstep with
  | notifyAll howed | notifyNone howed | notifyOne howed => exact ⟨_, howed⟩

omit [DecidableEq Actor] [DecidableEq Word] in
theorem actorOf_rouses {helper : Option Actor} (hc : Waits.rouses w helper c) :
    actorOfSleepy W c = helper.getD w := by
  cases helper with
  | none =>
      obtain rfl := hc
      rfl
  | some u =>
      obtain ⟨picked, rfl⟩ := hc
      rfl

/-- An actor that can rouse another one, or itself, can do nothing else. -/
theorem rouses_sole {helper : Option Actor} (hlaw : W.Lawful) (hg : W.sleepy.Reachable g)
    (hc : Waits.rouses w helper c) (hisSome : (W.sleepy.step g c).isSome = true)
    (hactor : actorOfSleepy W c' = actorOfSleepy W c)
    (hnext : (W.sleepy.step g c').isSome = true) : Waits.rouses w helper c' := by
  have hplaced := (Waits.sound_of_reachable hlaw hg).toPlaced
  obtain ⟨_, hstep⟩ := Option.isSome_iff_exists.mp hisSome
  obtain ⟨_, hnext⟩ := Option.isSome_iff_exists.mp hnext
  cases helper with
  | none =>
      obtain rfl := hc
      obtain ⟨old, -, -, hmode, -⟩ := waits_of_compare hstep
      have howes := hplaced.owes_none (w := w) (by simp [hmode])
      cases Waits.sleepyStep_cases hnext with
      | act hawake | load hawake =>
          obtain rfl := hactor
          cases hawake.symm.trans hmode
      | sleep | rise => exact congrArg Waits.SleepyAction.compare hactor
      | notifyAll howed | notifyNone howed | notifyOne howed =>
          obtain rfl := hactor
          cases howes.symm.trans howed
  | some u =>
      obtain ⟨picked, rfl⟩ := hc
      obtain ⟨word, howed⟩ := owes_of_notify hstep
      have hawake := hplaced.owing u word howed
      cases Waits.sleepyStep_cases hnext with
      | act _ howes | load _ howes =>
          obtain rfl := hactor
          cases howes.symm.trans howed
      | sleep hmode | rise hmode =>
          obtain rfl := hactor
          cases hawake.symm.trans hmode
      | notifyAll | notifyNone | notifyOne =>
          obtain rfl := hactor
          exact ⟨_, rfl⟩

omit [DecidableEq Mutex] in
/-- Who can rouse somebody is about to enter no section. -/
theorem guard_of_rouses {helper : Option Actor}
    (hapart : ∀ s w mutex, S.guard s w = some mutex → W.waits s w = none)
    (hc : Waits.rouses w helper c) (hisSome : (W.sleepy.step g c).isSome = true) :
    S.sleepy.guard g (helper.getD w) = none := by
  obtain ⟨_, hstep⟩ := Option.isSome_iff_exists.mp hisSome
  by_contra hguard
  obtain ⟨mutex, hguard⟩ := Option.ne_none_iff_exists'.mp hguard
  obtain ⟨howes, hsection⟩ := sleepy_guard.mp hguard
  cases helper with
  | none =>
      obtain rfl := hc
      obtain ⟨-, word, stays, -, hwaits⟩ := waits_of_compare hstep
      cases (hapart _ _ _ hsection).symm.trans hwaits
  | some u =>
      obtain ⟨picked, rfl⟩ := hc
      obtain ⟨word, howed⟩ := owes_of_notify hstep
      cases howes.symm.trans howed

variable {σ : ℕ → Locked (Waits.Sleepy State Actor Word) Actor Mutex}
  {ok : LockedAction (Waits.SleepyAction Action Actor) Actor → Prop}

theorem weaklyFair_act (hlaw : W.Lawful) (hsections : S.sleepy.Lawful)
    (hstart : S.sleepy.locked.Reachable (σ 0)) (h : S.sleepy.locked.Behaviour ok σ)
    (hgoes : S.sleepy.GoesOn σ) (henter : S.sleepy.locked.StronglyFair σ (· = .enter w))
    (hactor : ∀ a, moves a → W.actor a = w)
    (hsame : ∀ s a b, moves a → (W.base.step s a).isSome = true → W.actor b = w →
      (W.base.step s b).isSome = true → moves b)
    (hact : S.sleepy.locked.WeaklyFair σ (·.Of (·.Of moves))) :
    W.sleepy.WeaklyFair (fun k => (σ k).state) (·.Of moves) := by
  have hown : ∀ c : Waits.SleepyAction Action Actor, c.Of moves → actorOfSleepy W c = w := by
    rintro _ ⟨a, ha, rfl⟩
    exact hactor a ha
  refine weaklyFair_state hsections hstart h hgoes (.inl henter) hown ?_ hact
  intro g c c' hg hc hisSome hw hnext
  refine of_sole hlaw hg hc (fun a b ha hready hb hready' => ?_) hisSome
    (hw.trans (hown c hc).symm) hnext
  exact hsame _ a b ha hready (hb.trans (hactor a ha)) hready'

theorem rousing_state (hlaw : W.Lawful) (hsections : S.sleepy.Lawful)
    (hapart : ∀ s w mutex, S.guard s w = some mutex → W.waits s w = none)
    (hstart : S.sleepy.locked.Reachable (σ 0)) (h : S.sleepy.locked.Behaviour ok σ)
    (hgoes : S.sleepy.GoesOn σ)
    (hrousing : ∀ w helper, S.sleepy.locked.WeaklyFair σ (·.Of (Waits.rouses w helper))) :
    W.Rousing fun k => (σ k).state := by
  intro w helper
  refine weaklyFair_state hsections hstart h hgoes (.inr ?_) (fun _ => actorOf_rouses) ?_
    (hrousing w helper)
  · exact fun _ _ => guard_of_rouses hapart
  · intro g c c' hg hc hisSome hw hnext
    exact rouses_sole hlaw hg hc hisSome (hw.trans (actorOf_rouses hc).symm) hnext

end Behaviour

end Sleepy

end Sections

end Unlog.Library
