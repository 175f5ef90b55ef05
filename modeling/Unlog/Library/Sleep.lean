import Unlog.Library.Fair
import Unlog.Library.Simulation

/-! # Waiting on words

A guarded wait, where an actor is disabled until a condition on a shared word holds, is carried out
by falling asleep on the value that was read and being notified. Between the two levels no wake-up
is lost if every step that ends a wait owes a notification. -/

namespace Unlog.Library

universe u v w x

/-- A system with guarded waits. `waits` gives the word an actor waits for and the values that keep
it waiting, `notifies` the word whose sleepers a step has to notify afterwards, all of them or
one. -/
structure Waits (State : Type u) (Action : Type v) (Actor : Type w) (Word : Type x) where
  base : System State Action
  actor : Action → Actor
  value : State → Word → ℕ
  waits : State → Actor → Option (Word × (ℕ → Bool))
  notifies : State → Action → Option Word
  notifiesAll : Word → Bool

/-- An actor reads a value that keeps it waiting, then compares it again and falls asleep in one
act; when it is notified it compares once more. -/
inductive Mode where
  | awake
  | loaded (old : ℕ)
  | asleep (old : ℕ)
  deriving DecidableEq, Repr

/-- A notified actor. -/
def Mode.woken : Mode → Mode
  | .asleep old => .loaded old
  | mode => mode

/-- The value a wait began with. -/
def Mode.old? : Mode → Option ℕ
  | .awake => none
  | .loaded old => some old
  | .asleep old => some old

namespace Waits

variable {State : Type u} {Action : Type v} {Actor : Type w} {Word : Type x}

/-- The actors over a state of the base system: who sleeps on a word, and the word an actor has
changed and not yet notified. -/
structure Sleepy (State : Type u) (Actor : Type w) (Word : Type x) where
  state : State
  mode : Actor → Mode := fun _ => .awake
  sleepers : Word → List Actor := fun _ => []
  owes : Actor → Option Word := fun _ => none

/-- `picked` is the place of the sleeper that a notification of one wakes. -/
inductive SleepyAction (Action : Type v) (Actor : Type w) where
  | act (a : Action)
  | load (w : Actor)
  | compare (w : Actor)
  | notify (w : Actor) (picked : ℕ)

/-- The step of the base system, if it is one. -/
def SleepyAction.act? : SleepyAction Action Actor → Option Action
  | .act a => some a
  | _ => none

/-- A step of the base system of that kind. -/
def SleepyAction.Of (moves : Action → Prop) (b : SleepyAction Action Actor) : Prop :=
  ∃ a, moves a ∧ b = .act a

/-- Of that kind, if it is a step of the base system. -/
def SleepyAction.Acts (kind : Action → Prop) (b : SleepyAction Action Actor) : Prop :=
  ∀ a, b = .act a → kind a

variable [DecidableEq Actor] [DecidableEq Word] (W : Waits State Action Actor Word)

/-- A notification on a word. -/
def notifyStep (f : Sleepy State Actor Word) (word : Word) (picked : ℕ) :
    Option (Sleepy State Actor Word) :=
  if W.notifiesAll word then
    some { f with
      mode := fun u => if u ∈ f.sleepers word then (f.mode u).woken else f.mode u
      sleepers := Function.update f.sleepers word [] }
  else if f.sleepers word = [] then some f
  else
    match (f.sleepers word)[picked]? with
    | none => none
    | some u =>
      some { f with
        mode := Function.update f.mode u (f.mode u).woken
        sleepers := Function.update f.sleepers word ((f.sleepers word).erase u) }

def sleepyStep (f : Sleepy State Actor Word) :
    SleepyAction Action Actor → Option (Sleepy State Actor Word)
  | .act a =>
    if f.mode (W.actor a) = .awake ∧ f.owes (W.actor a) = none then
      (W.base.step f.state a).map fun s =>
        { f with state := s, owes := Function.update f.owes (W.actor a) (W.notifies f.state a) }
    else none
  | .load w =>
    if f.mode w = .awake ∧ f.owes w = none then
      match W.waits f.state w with
      | none => none
      | some (word, stays) =>
        let old := W.value f.state word
        if stays old then some { f with mode := Function.update f.mode w (.loaded old) } else none
    else none
  | .compare w =>
    match f.mode w, W.waits f.state w with
    | .loaded old, some (word, _) =>
      if W.value f.state word = old then
        some { f with
          mode := Function.update f.mode w (.asleep old)
          sleepers := Function.update f.sleepers word (w :: f.sleepers word) }
      else some { f with mode := Function.update f.mode w .awake }
    | _, _ => none
  | .notify w picked =>
    match f.owes w with
    | none => none
    | some word => W.notifyStep { f with owes := Function.update f.owes w none } word picked

/-- The same program with sleeping actors. -/
def sleepy : System (Sleepy State Actor Word) (SleepyAction Action Actor) where
  Initial f := ∃ s, W.base.Initial s ∧ f = { state := s }
  step := W.sleepyStep

/-- What the base system has to see to. -/
structure Lawful : Prop where
  /-- A wait is guarded by its word. -/
  stuck : ∀ s a word stays, W.base.Reachable s → W.waits s (W.actor a) = some (word, stays) →
    stays (W.value s word) = true → W.base.step s a = none
  /-- Nobody else ends a wait. -/
  kept : ∀ s a s' w, W.base.Reachable s → W.base.step s a = some s' → W.actor a ≠ w →
    W.waits s' w = W.waits s w
  /-- Who lets a waiting actor go on notifies its word. -/
  noticed : ∀ s a s' w word stays, W.base.Reachable s → W.base.step s a = some s' →
    W.waits s w = some (word, stays) → stays (W.value s word) = true →
    stays (W.value s' word) = true ∨ W.notifies s a = some word
  /-- Only one actor waits on a word of which one sleeper is notified. -/
  sole : ∀ s w w' word stays stays', W.base.Reachable s → W.notifiesAll word = false →
    W.waits s w = some (word, stays) → W.waits s w' = some (word, stays') → w = w'

variable {W}

/-- What a step of the sleeping program does. -/
inductive SleepyStep (W : Waits State Action Actor Word) (f : Sleepy State Actor Word) :
    SleepyAction Action Actor → Sleepy State Actor Word → Prop
  | act {a : Action} {s : State} (hawake : f.mode (W.actor a) = .awake)
      (howes : f.owes (W.actor a) = none) (hstep : W.base.step f.state a = some s) :
      SleepyStep W f (.act a) { f with
        state := s, owes := Function.update f.owes (W.actor a) (W.notifies f.state a) }
  | load {w : Actor} {word : Word} {stays : ℕ → Bool} (hawake : f.mode w = .awake)
      (howes : f.owes w = none) (hwaits : W.waits f.state w = some (word, stays))
      (hstays : stays (W.value f.state word) = true) :
      SleepyStep W f (.load w) { f with
        mode := Function.update f.mode w (.loaded (W.value f.state word)) }
  | sleep {w : Actor} {old : ℕ} {word : Word} {stays : ℕ → Bool} (hmode : f.mode w = .loaded old)
      (hwaits : W.waits f.state w = some (word, stays)) (hvalue : W.value f.state word = old) :
      SleepyStep W f (.compare w) { f with
        mode := Function.update f.mode w (.asleep old)
        sleepers := Function.update f.sleepers word (w :: f.sleepers word) }
  | rise {w : Actor} {old : ℕ} {word : Word} {stays : ℕ → Bool} (hmode : f.mode w = .loaded old)
      (hwaits : W.waits f.state w = some (word, stays)) (hvalue : W.value f.state word ≠ old) :
      SleepyStep W f (.compare w) { f with mode := Function.update f.mode w .awake }
  | notifyAll {w : Actor} {picked : ℕ} {word : Word} (howes : f.owes w = some word)
      (hall : W.notifiesAll word = true) :
      SleepyStep W f (.notify w picked) { f with
        owes := Function.update f.owes w none
        mode := fun u => if u ∈ f.sleepers word then (f.mode u).woken else f.mode u
        sleepers := Function.update f.sleepers word [] }
  | notifyNone {w : Actor} {picked : ℕ} {word : Word} (howes : f.owes w = some word)
      (hone : W.notifiesAll word = false) (hnone : f.sleepers word = []) :
      SleepyStep W f (.notify w picked) { f with owes := Function.update f.owes w none }
  | notifyOne {w u : Actor} {picked : ℕ} {word : Word} (howes : f.owes w = some word)
      (hone : W.notifiesAll word = false) (hpicked : (f.sleepers word)[picked]? = some u) :
      SleepyStep W f (.notify w picked) { f with
        owes := Function.update f.owes w none
        mode := Function.update f.mode u (f.mode u).woken
        sleepers := Function.update f.sleepers word ((f.sleepers word).erase u) }

theorem sleepyStep_cases {f f' : Sleepy State Actor Word} {b : SleepyAction Action Actor}
    (hstep : W.sleepyStep f b = some f') : SleepyStep W f b f' := by
  cases b with
  | act a =>
      simp only [sleepyStep] at hstep
      split at hstep
      case isFalse => contradiction
      case isTrue hready =>
        obtain ⟨s, hnext, rfl⟩ := Option.map_eq_some_iff.mp hstep
        exact .act hready.1 hready.2 hnext
  | load w =>
      simp only [sleepyStep] at hstep
      split at hstep
      case isFalse => contradiction
      case isTrue hready =>
        split at hstep
        case h_1 => contradiction
        case h_2 word stays hwaits =>
          split at hstep
          case isFalse => contradiction
          case isTrue hstays =>
            obtain rfl := Option.some.inj hstep
            exact .load hready.1 hready.2 hwaits hstays
  | compare w =>
      simp only [sleepyStep] at hstep
      split at hstep
      case h_1 old word stays hmode hwaits =>
        split at hstep
        case isTrue hvalue =>
          obtain rfl := Option.some.inj hstep
          exact .sleep hmode hwaits hvalue
        case isFalse hvalue =>
          obtain rfl := Option.some.inj hstep
          exact .rise hmode hwaits hvalue
      case h_2 => contradiction
  | notify w picked =>
      simp only [sleepyStep] at hstep
      split at hstep
      case h_1 => contradiction
      case h_2 word howes =>
        simp only [notifyStep] at hstep
        split at hstep
        case isTrue hall =>
          obtain rfl := Option.some.inj hstep
          exact .notifyAll howes hall
        case isFalse hone =>
          replace hone : W.notifiesAll word = false := by simpa using hone
          split at hstep
          case isTrue hnone =>
            obtain rfl := Option.some.inj hstep
            exact .notifyNone howes hone hnone
          case isFalse =>
            split at hstep
            case h_1 => contradiction
            case h_2 u hu =>
              obtain rfl := Option.some.inj hstep
              exact .notifyOne howes hone hu

/-! ## The invariant -/

/-- Where the actors are: who has begun a wait is at it, the sleepers of a word are queued on it,
and only an actor that is awake owes a notification. -/
structure Placed (W : Waits State Action Actor Word) (f : Sleepy State Actor Word) : Prop where
  reached : W.base.Reachable f.state
  waiting : ∀ w old, (f.mode w).old? = some old →
    ∃ word stays, W.waits f.state w = some (word, stays) ∧ stays old = true
  queued : ∀ w word, w ∈ f.sleepers word ↔
    (∃ old, f.mode w = .asleep old) ∧ ∃ stays, W.waits f.state w = some (word, stays)
  once : ∀ word, (f.sleepers word).Nodup
  owing : ∀ w word, f.owes w = some word → f.mode w = .awake

/-- Nobody sleeps through a change. -/
structure Sound (W : Waits State Action Actor Word) (f : Sleepy State Actor Word) : Prop
    extends Placed W f where
  alarmed : ∀ w old word stays, f.mode w = .asleep old →
    W.waits f.state w = some (word, stays) →
    stays (W.value f.state word) = true ∨ ∃ u, f.owes u = some word

variable {f f' : Sleepy State Actor Word} {s s' : State} {a : Action} {word : Word} {old : ℕ}
  {stays : ℕ → Bool} {w : Actor}

omit [DecidableEq Actor] [DecidableEq Word] in
theorem Placed.owes_none (h : Placed W f) (hmode : f.mode w ≠ .awake) : f.owes w = none := by
  cases howes : f.owes w with
  | none => rfl
  | some word => exact absurd (h.owing w word howes) hmode

omit [DecidableEq Word] in
/-- One actor changes its mode, and with it the queues. -/
theorem Placed.turn {mode : Mode} {sleepers : Word → List Actor} (h : Placed W f)
    (howes : mode ≠ .awake → f.owes w = none)
    (hwaiting : ∀ old, mode.old? = some old →
      ∃ word stays, W.waits f.state w = some (word, stays) ∧ stays old = true)
    (hself : ∀ word, w ∈ sleepers word ↔
      (∃ old, mode = .asleep old) ∧ ∃ stays, W.waits f.state w = some (word, stays))
    (hothers : ∀ u word, u ≠ w → (u ∈ sleepers word ↔ u ∈ f.sleepers word))
    (honce : ∀ word, (sleepers word).Nodup) :
    Placed W { f with mode := Function.update f.mode w mode, sleepers := sleepers } := by
  refine ⟨h.reached, fun u => ?_, fun u word => ?_, honce, fun u word hword => ?_⟩
  · by_cases hu : u = w
    · subst hu
      simpa using hwaiting
    · simpa [Function.update_of_ne hu] using h.waiting u
  · by_cases hu : u = w
    · subst hu
      simpa using hself word
    · simpa [Function.update_of_ne hu, hothers u word hu] using h.queued u word
  · by_cases hu : u = w
    · subst hu
      by_contra hmode
      rw [howes (by simpa using hmode)] at hword
      contradiction
    · simpa [Function.update_of_ne hu] using h.owing u word hword

omit [DecidableEq Word] in
theorem Sound.act (hlaw : W.Lawful) (h : Sound W f) (hawake : f.mode (W.actor a) = .awake)
    (howes : f.owes (W.actor a) = none) (hstep : W.base.step f.state a = some s') :
    Sound W { f with
      state := s', owes := Function.update f.owes (W.actor a) (W.notifies f.state a) } := by
  have hkept : ∀ w, f.mode w ≠ .awake → W.waits s' w = W.waits f.state w := by
    intro w hmode
    refine hlaw.kept _ a _ w h.reached hstep ?_
    rintro rfl
    exact hmode hawake
  refine ⟨⟨h.reached.step hstep, fun w old hold => ?_, fun w word => ?_, h.once,
    fun w word hword => ?_⟩, fun w old word stays hmode hwaits => ?_⟩
  · dsimp only at hold ⊢
    rw [hkept w (by rintro hmode; rw [hmode] at hold; contradiction)]
    exact h.waiting w old hold
  · refine (h.queued w word).trans (and_congr_right fun ⟨old, hmode⟩ => ?_)
    dsimp only
    rw [hkept w (by rw [hmode]; nofun)]
  · by_cases hw : w = W.actor a
    · exact hw ▸ hawake
    · dsimp only at hword
      rw [Function.update_of_ne hw] at hword
      exact h.owing w word hword
  · dsimp only at hmode hwaits ⊢
    rw [hkept w (by rw [hmode]; nofun)] at hwaits
    rcases h.alarmed w old word stays hmode hwaits with hstays | ⟨u, hu⟩
    · rcases hlaw.noticed _ a _ w word stays h.reached hstep hwaits hstays with hstill | hnotifies
      · exact .inl hstill
      · exact .inr ⟨W.actor a, by rw [Function.update_self, hnotifies]⟩
    · have hne : u ≠ W.actor a := by
        rintro rfl
        rw [howes] at hu
        contradiction
      exact .inr ⟨u, by rw [Function.update_of_ne hne, hu]⟩

omit [DecidableEq Actor] [DecidableEq Word] in
theorem Placed.not_queued (h : Placed W f) (hmode : ∀ old, f.mode w ≠ .asleep old) (word : Word) :
    w ∉ f.sleepers word := by
  rw [h.queued]
  rintro ⟨⟨old, hasleep⟩, -⟩
  exact hmode old hasleep

omit [DecidableEq Word] in
/-- An actor that is awake turns to its wait, or one that is not queued away from it. -/
theorem Sound.turn_awake {mode : Mode} (h : Sound W f) (hqueued : ∀ old, f.mode w ≠ .asleep old)
    (hmode : ∀ old, mode ≠ .asleep old) (howes : f.owes w = none)
    (hwaiting : ∀ old, mode.old? = some old →
      ∃ word stays, W.waits f.state w = some (word, stays) ∧ stays old = true) :
    Sound W { f with mode := Function.update f.mode w mode } where
  toPlaced := h.turn (fun _ => howes) hwaiting
    (fun word => iff_of_false (h.not_queued hqueued word) fun ⟨⟨old, hasleep⟩, _⟩ =>
      hmode old hasleep)
    (fun _ _ _ => Iff.rfl) h.once
  alarmed u old word stays hu := by
    by_cases heq : u = w
    · subst heq
      simp only [Function.update_self] at hu
      exact absurd hu (hmode old)
    · simp only [Function.update_of_ne heq] at hu
      exact h.alarmed u old word stays hu

/-- An actor falls asleep on the value it has read. -/
theorem Sound.sleep (h : Sound W f) (hmode : f.mode w = .loaded old)
    (hwaits : W.waits f.state w = some (word, stays)) (hvalue : W.value f.state word = old) :
    Sound W { f with
      mode := Function.update f.mode w (.asleep old)
      sleepers := Function.update f.sleepers word (w :: f.sleepers word) } := by
  obtain ⟨word', stays', hwaits', hstays⟩ := h.waiting w old (by rw [hmode]; rfl)
  obtain ⟨rfl, rfl⟩ := Prod.mk.inj (Option.some.inj (hwaits.symm.trans hwaits'))
  have hnot := fun other => h.not_queued (w := w) (by rw [hmode]; exact nofun) other
  refine ⟨h.turn (fun _ => h.owes_none (by rw [hmode]; nofun)) ?_ ?_ ?_ ?_, ?_⟩
  · rintro _ ⟨⟩
    exact ⟨word, stays, hwaits, hstays⟩
  · intro other
    by_cases hother : other = word
    · subst hother
      simp [hwaits]
    · simp [Function.update_of_ne hother, hnot other, hwaits, Ne.symm hother]
  · intro u other hu
    by_cases hother : other = word
    · subst hother
      simp [hu]
    · rw [Function.update_of_ne hother]
  · intro other
    by_cases hother : other = word
    · subst hother
      simpa using ⟨hnot other, h.once other⟩
    · rw [Function.update_of_ne hother]
      exact h.once other
  · intro u old' other stays' hu hother
    by_cases heq : u = w
    · subst heq
      obtain ⟨rfl, rfl⟩ := Prod.mk.inj (Option.some.inj (hwaits.symm.trans hother))
      exact .inl (hvalue ▸ hstays)
    · simp only [Function.update_of_ne heq] at hu
      exact h.alarmed u old' other stays' hu hother

omit [DecidableEq Word] in
theorem Placed.paid (h : Placed W f) (w : Actor) :
    Placed W { f with owes := Function.update f.owes w none } := by
  refine ⟨h.reached, h.waiting, h.queued, h.once, fun u word hword => ?_⟩
  by_cases hu : u = w
  · subst hu
    simp at hword
  · simp only [Function.update_of_ne hu] at hword
    exact h.owing u word hword

omit [DecidableEq Word] in
/-- After the notification, the sleepers of other words are still announced. -/
theorem Sound.still_alarmed (h : Sound W f) (howes : f.owes w = some word) {u : Actor}
    {other : Word} (hu : f.mode u = .asleep old) (hwaits : W.waits f.state u = some (other, stays))
    (hne : other ≠ word) : stays (W.value f.state other) = true ∨
      ∃ v, Function.update f.owes w none v = some other := by
  refine (h.alarmed u old other stays hu hwaits).imp_right fun ⟨v, hv⟩ => ⟨v, ?_⟩
  have hvw : v ≠ w := by
    rintro rfl
    exact hne (Option.some.inj (hv.symm.trans howes))
  rw [Function.update_of_ne hvw, hv]

theorem woken_old? (mode : Mode) : mode.woken.old? = mode.old? := by
  cases mode <;> rfl

theorem woken_ne_asleep (mode : Mode) (old : ℕ) : mode.woken ≠ .asleep old := by
  cases mode <;> simp [Mode.woken]

/-- Everybody who sleeps on a word is woken. -/
theorem Sound.notify_all (h : Sound W f) (howes : f.owes w = some word) :
    Sound W { f with
      owes := Function.update f.owes w none
      mode := fun u => if u ∈ f.sleepers word then (f.mode u).woken else f.mode u
      sleepers := Function.update f.sleepers word [] } := by
  have hpaid := h.paid w
  -- who still sleeps waits on another word
  have hother : ∀ u old, (if u ∈ f.sleepers word then (f.mode u).woken else f.mode u) =
      .asleep old → f.mode u = .asleep old ∧ u ∉ f.sleepers word := by
    intro u old hu
    split at hu
    case isTrue => exact absurd hu (woken_ne_asleep _ _)
    case isFalse hnot => exact ⟨hu, hnot⟩
  refine ⟨⟨h.reached, fun u old hold => ?_, fun u other => ?_, fun other => ?_,
    fun u other hword => ?_⟩, fun u old other stays hu hwaits => ?_⟩
  · refine h.waiting u old ?_
    dsimp only at hold
    split at hold
    · rwa [woken_old?] at hold
    · exact hold
  · by_cases hword : other = word
    · subst hword
      simp only [Function.update_self, List.not_mem_nil, false_iff, not_and]
      rintro ⟨old, hu⟩ hwaits
      obtain ⟨hmode, hnot⟩ := hother u old hu
      exact hnot ((h.queued u other).mpr ⟨⟨old, hmode⟩, hwaits⟩)
    · simp only [Function.update_of_ne hword, h.queued u other]
      refine and_congr_left fun ⟨stays, hwaits⟩ => exists_congr fun old => ?_
      rw [if_neg]
      rintro hmem
      obtain ⟨-, stays', hwaits'⟩ := (h.queued u word).mp hmem
      exact hword (Prod.mk.inj (Option.some.inj (hwaits.symm.trans hwaits'))).1
  · by_cases hword : other = word
    · subst hword
      simp
    · simpa [Function.update_of_ne hword] using h.once other
  · have hawake := hpaid.owing u other hword
    dsimp only at hawake ⊢
    rw [hawake]
    simp [Mode.woken]
  · obtain ⟨hmode, hnot⟩ := hother u old hu
    refine h.still_alarmed howes hmode hwaits ?_
    rintro rfl
    exact hnot ((h.queued u other).mpr ⟨⟨old, hmode⟩, stays, hwaits⟩)

omit [DecidableEq Word] in
/-- Nobody sleeps on a word that is notified. -/
theorem Sound.notify_none (h : Sound W f) (howes : f.owes w = some word)
    (hnone : f.sleepers word = []) :
    Sound W { f with owes := Function.update f.owes w none } := by
  refine ⟨h.paid w, fun u old other stays hu hwaits => ?_⟩
  refine h.still_alarmed howes hu hwaits ?_
  rintro rfl
  have hmem := (h.queued u other).mpr ⟨⟨old, hu⟩, stays, hwaits⟩
  rw [hnone] at hmem
  contradiction

/-- The only actor that can sleep on a word is woken. -/
theorem Sound.notify_one (hlaw : W.Lawful) (h : Sound W f) (howes : f.owes w = some word)
    (hone : W.notifiesAll word = false) {u : Actor} (hu : u ∈ f.sleepers word) :
    Sound W { f with
      owes := Function.update f.owes w none
      mode := Function.update f.mode u (f.mode u).woken
      sleepers := Function.update f.sleepers word ((f.sleepers word).erase u) } := by
  obtain ⟨⟨old, hmode⟩, stays, hwaits⟩ := (h.queued u word).mp hu
  obtain ⟨word', stays', hwaits', hstays⟩ := h.waiting u old (by rw [hmode]; rfl)
  have howesu := h.owes_none (w := u) (by rw [hmode]; nofun)
  refine ⟨(h.paid w).turn (fun _ => ?_) ?_ ?_ ?_ ?_, ?_⟩
  · have huw : u ≠ w := by
      rintro rfl
      rw [howesu] at howes
      contradiction
    simpa [Function.update_of_ne huw] using howesu
  · intro old' hold
    rw [woken_old?] at hold
    exact h.waiting u old' hold
  · intro other
    refine iff_of_false ?_ fun ⟨⟨old', hasleep⟩, _⟩ => woken_ne_asleep _ _ hasleep
    by_cases hword : other = word
    · subst hword
      simpa using (h.once other).not_mem_erase
    · rw [Function.update_of_ne hword, h.queued]
      rintro ⟨-, stays'', hother⟩
      exact hword (Prod.mk.inj (Option.some.inj (hother.symm.trans hwaits))).1
  · intro v other hv
    by_cases hword : other = word
    · subst hword
      simp [List.mem_erase_of_ne hv]
    · rw [Function.update_of_ne hword]
  · intro other
    by_cases hword : other = word
    · subst hword
      simpa using (h.once other).erase u
    · simpa [Function.update_of_ne hword] using h.once other
  · intro v old' other stays'' hv hother
    have hvu : v ≠ u := by
      rintro rfl
      simp only [Function.update_self] at hv
      exact woken_ne_asleep _ _ hv
    simp only [Function.update_of_ne hvu] at hv
    refine h.still_alarmed howes hv hother ?_
    rintro rfl
    exact hvu (hlaw.sole _ v u other stays'' stays h.reached hone hother hwaits)

theorem Sound.step (hlaw : W.Lawful) (h : Sound W f) {b : SleepyAction Action Actor}
    (hstep : W.sleepyStep f b = some f') : Sound W f' := by
  cases sleepyStep_cases hstep with
  | act hawake howes hnext => exact h.act hlaw hawake howes hnext
  | load hawake howes hwaits hstays =>
      refine h.turn_awake (by simp [hawake]) nofun howes ?_
      rintro _ ⟨⟩
      exact ⟨_, _, hwaits, hstays⟩
  | sleep hmode hwaits hvalue => exact h.sleep hmode hwaits hvalue
  | rise hmode hwaits hvalue =>
      exact h.turn_awake (by simp [hmode]) nofun (h.owes_none (by simp [hmode])) nofun
  | notifyAll howes hall => exact h.notify_all howes
  | notifyNone howes hone hnone => exact h.notify_none howes hnone
  | notifyOne howes hone hpicked =>
      exact h.notify_one hlaw howes hone (List.mem_of_getElem? hpicked)

theorem sound_of_reachable (hlaw : W.Lawful) (h : W.sleepy.Reachable f) : Sound W f := by
  refine h.invariant ?_ fun f b f' _ hs hstep => hs.step hlaw hstep
  rintro _ ⟨s, hs, rfl⟩
  refine ⟨⟨.initial hs, nofun, fun w word => ?_, fun _ => List.nodup_nil, nofun⟩, nofun⟩
  simp

/-! ## Between the levels -/

/-- A step of the sleeping program is a step of the base system, or silent. -/
theorem sleepyStep_state {b : SleepyAction Action Actor} (hstep : W.sleepyStep f b = some f') :
    (∃ a, b = .act a ∧ W.base.step f.state a = some f'.state) ∨
      b.act? = none ∧ f'.state = f.state := by
  cases sleepyStep_cases hstep with
  | act hawake howes hnext => exact .inl ⟨_, rfl, hnext⟩
  | _ => exact .inr ⟨rfl, rfl⟩

theorem act_state (hstep : W.sleepy.step f (.act a) = some f') :
    W.base.step f.state a = some f'.state := by
  change W.sleepyStep f (.act a) = some f' at hstep
  cases sleepyStep_cases hstep with
  | act hawake howes hnext => exact hnext

/-- The sleeping program implements the guarded one. -/
def simulation (W : Waits State Action Actor Word) : System.Simulation W.sleepy W.base where
  view := Sleepy.state
  label _ b := b.act?
  initial := by
    rintro f ⟨s, hs, rfl⟩
    exact hs
  shown f b f' a _ hstep hact := by
    rcases sleepyStep_state hstep with ⟨a', rfl, hnext⟩ | ⟨hsilent, -⟩
    · obtain rfl : a' = a := Option.some.inj hact
      exact hnext
    · exact absurd (hsilent.symm.trans hact) nofun
  silent f b f' _ hstep hact := by
    rcases sleepyStep_state hstep with ⟨a, rfl, -⟩ | ⟨-, hsame⟩
    · contradiction
    · exact hsame

/-- Whoever is awake and owes nothing can take its step. -/
theorem act_of_awake (hawake : f.mode (W.actor a) = .awake) (howes : f.owes (W.actor a) = none)
    (hstep : W.base.step f.state a = some s') :
    ∃ f', W.sleepyStep f (.act a) = some f' ∧ f'.state = s' := by
  refine ⟨{ f with
    state := s', owes := Function.update f.owes (W.actor a) (W.notifies f.state a) }, ?_, rfl⟩
  simp only [sleepyStep, hawake, howes, and_self, if_true, hstep, Option.map_some]

theorem act_enabled : (W.sleepy.step f (.act a)).isSome = true ↔
    (f.mode (W.actor a) = .awake ∧ f.owes (W.actor a) = none) ∧
      (W.base.step f.state a).isSome = true := by
  change (W.sleepyStep f (.act a)).isSome = true ↔ _
  rw [sleepyStep]
  split
  case isTrue h => simp [h]
  case isFalse h => simp [h]

/-- If a notification can be made, the first of the sleepers can be picked. -/
theorem notify_first {u : Actor} {picked : ℕ}
    (h : (W.sleepy.step f (.notify u picked)).isSome = true) :
    (W.sleepy.step f (.notify u 0)).isSome = true := by
  change (W.sleepyStep f (.notify u picked)).isSome = true at h
  change (W.sleepyStep f (.notify u 0)).isSome = true
  cases howes : f.owes u with
  | none => simp [sleepyStep, howes] at h
  | some word =>
      simp only [sleepyStep, howes, notifyStep]
      split
      · rfl
      · cases f.sleepers word with
        | nil => rfl
        | cons v rest => simp

/-- A notification can always be made: it wakes a given sleeper of its word, and leaves everybody
who is awake so. -/
theorem notify_wakes {u : Actor} (howes : f.owes u = some word)
    (hw : f.mode w = .awake ∨ w ∈ f.sleepers word) :
    ∃ picked f', W.sleepyStep f (.notify u picked) = some f' ∧ f'.state = f.state ∧
      f'.owes = Function.update f.owes u none ∧ f'.mode w = (f.mode w).woken := by
  have hawake : w ∉ f.sleepers word → f.mode w = (f.mode w).woken := by
    intro hnot
    rw [hw.resolve_right hnot]
    rfl
  cases hall : W.notifiesAll word with
  | true =>
      refine ⟨0, { f with
        owes := Function.update f.owes u none
        mode := fun v => if v ∈ f.sleepers word then (f.mode v).woken else f.mode v
        sleepers := Function.update f.sleepers word [] }, ?_, rfl, rfl, ?_⟩
      · simp only [sleepyStep, howes, notifyStep, hall, if_true]
      · dsimp only
        split
        case isTrue => rfl
        case isFalse hnot => exact hawake hnot
  | false =>
      by_cases hnone : f.sleepers word = []
      · refine ⟨0, { f with owes := Function.update f.owes u none }, ?_, rfl, rfl, ?_⟩
        · simp [sleepyStep, howes, notifyStep, hall, hnone]
        · exact hawake (by simp [hnone])
      · -- the sleeper itself is picked, or anybody
        obtain ⟨picked, v, hpicked, hv⟩ : ∃ picked v, (f.sleepers word)[picked]? = some v ∧
            (w ∈ f.sleepers word → v = w) := by
          by_cases hmem : w ∈ f.sleepers word
          · obtain ⟨picked, hpicked⟩ := List.mem_iff_getElem?.mp hmem
            exact ⟨picked, w, hpicked, fun _ => rfl⟩
          · obtain ⟨v, rest, hlist⟩ := List.exists_cons_of_ne_nil hnone
            exact ⟨0, v, by rw [hlist]; rfl, fun h => absurd h hmem⟩
        refine ⟨picked, { f with
          owes := Function.update f.owes u none
          mode := Function.update f.mode v (f.mode v).woken
          sleepers := Function.update f.sleepers word ((f.sleepers word).erase v) }, ?_, rfl, rfl, ?_⟩
        · simp [sleepyStep, howes, notifyStep, hall, hnone, hpicked]
        · by_cases hvw : v = w
          · simp [hvw]
          · dsimp only
            rw [Function.update_of_ne (Ne.symm hvw)]
            exact hawake fun hmem => hvw (hv hmem)

/-- A notified actor whose word has changed gets up. -/
theorem compare_awake (hmode : f.mode w = .loaded old)
    (hwaits : W.waits f.state w = some (word, stays)) (hvalue : W.value f.state word ≠ old) :
    ∃ f', W.sleepyStep f (.compare w) = some f' ∧ f'.state = f.state ∧ f'.owes = f.owes ∧
      f'.mode w = .awake := by
  refine ⟨{ f with mode := Function.update f.mode w .awake }, ?_, rfl, rfl, Function.update_self ..⟩
  simp only [sleepyStep, hmode, hwaits, if_neg hvalue]

/-- What the sleeping program owes to the guarded waits: it makes their steps only, nobody sleeps
through the end of its wait, and whatever the base system can do it can do after at most two silent
steps. -/
structure Refines (W : Waits State Action Actor Word) (f : Sleepy State Actor Word) : Prop where
  reached : W.base.Reachable f.state
  steps : ∀ b f', W.sleepy.step f b = some f' →
    (∃ a, b = .act a ∧ W.base.step f.state a = some f'.state) ∨
      b.act? = none ∧ f'.state = f.state
  woken : ∀ w old word stays, f.mode w = .asleep old → W.waits f.state w = some (word, stays) →
    stays (W.value f.state word) = true ∨ ∃ u, f.owes u = some word
  matched : ∀ a s', W.base.step f.state a = some s' → ∃ silent f', silent.length ≤ 2 ∧
    (∀ b ∈ silent, b.act? = none) ∧ W.sleepy.run f (silent ++ [.act a]) = some f' ∧ f'.state = s'

theorem Sound.matched (hlaw : W.Lawful) (h : Sound W f) (hstep : W.base.step f.state a = some s') :
    ∃ silent f', silent.length ≤ 2 ∧ (∀ b ∈ silent, SleepyAction.act? b = none) ∧
      W.sleepy.run f (silent ++ [.act a]) = some f' ∧ f'.state = s' := by
  -- an actor that has a step does not wait
  have hgone : ∀ old, (f.mode (W.actor a)).old? = some old → ∃ word stays,
      W.waits f.state (W.actor a) = some (word, stays) ∧ stays (W.value f.state word) = false ∧
        W.value f.state word ≠ old := by
    intro old hold
    obtain ⟨word, stays, hwaits, hstays⟩ := h.waiting _ old hold
    have hfalse : stays (W.value f.state word) = false := by
      by_contra hstill
      rw [hlaw.stuck _ a word stays h.reached hwaits (by simpa using hstill)] at hstep
      contradiction
    refine ⟨word, stays, hwaits, hfalse, ?_⟩
    rintro rfl
    exact absurd (hfalse.symm.trans hstays) nofun
  have hfrom : ∀ {g : Sleepy State Actor Word}, g.state = f.state → g.mode (W.actor a) = .awake →
      g.owes (W.actor a) = none → ∃ f', W.sleepy.run g [.act a] = some f' ∧ f'.state = s' := by
    intro g hstate hawake howes
    obtain ⟨f', hact, hs'⟩ := act_of_awake hawake howes (hstate ▸ hstep)
    exact ⟨f', Option.bind_eq_some_iff.mpr ⟨f', hact, rfl⟩, hs'⟩
  cases hmode : f.mode (W.actor a) with
  | awake =>
      cases howes : f.owes (W.actor a) with
      | none =>
          obtain ⟨f', hrun, hs'⟩ := hfrom rfl hmode howes
          exact ⟨[], f', Nat.zero_le 2, nofun, hrun, hs'⟩
      | some word =>
          obtain ⟨picked, g, hnotify, hstate, hpaid, hg⟩ := notify_wakes howes (.inl hmode)
          obtain ⟨f', hrun, hs'⟩ := hfrom hstate (by rw [hg, hmode]; rfl) (by simp [hpaid])
          refine ⟨[.notify (W.actor a) picked], f', by simp, by simp [SleepyAction.act?], ?_, hs'⟩
          exact Option.bind_eq_some_iff.mpr ⟨g, hnotify, hrun⟩
  | loaded old =>
      obtain ⟨word, stays, hwaits, -, hvalue⟩ := hgone old (by rw [hmode]; rfl)
      obtain ⟨g, hcompare, hstate, howes, hg⟩ := compare_awake hmode hwaits hvalue
      have hnone : g.owes (W.actor a) = none := by
        rw [howes]
        exact h.owes_none (by simp [hmode])
      obtain ⟨f', hrun, hs'⟩ := hfrom hstate hg hnone
      refine ⟨[.compare (W.actor a)], f', by simp, by simp [SleepyAction.act?], ?_, hs'⟩
      exact Option.bind_eq_some_iff.mpr ⟨g, hcompare, hrun⟩
  | asleep old =>
      obtain ⟨word, stays, hwaits, hfalse, hvalue⟩ := hgone old (by rw [hmode]; rfl)
      obtain ⟨u, hu⟩ := (h.alarmed _ old word stays hmode hwaits).resolve_left (by simp [hfalse])
      have hqueued := (h.queued (W.actor a) word).mpr ⟨⟨old, hmode⟩, stays, hwaits⟩
      obtain ⟨picked, g, hnotify, hstate, hpaid, hg⟩ :=
        notify_wakes hu (.inr hqueued)
      rw [hmode] at hg
      obtain ⟨i, hcompare, hstate', howes, hi⟩ :=
        compare_awake hg (hstate ▸ hwaits) (hstate ▸ hvalue)
      have hnone : i.owes (W.actor a) = none := by
        have hbefore := h.owes_none (w := W.actor a) (by simp [hmode])
        rw [howes, hpaid]
        by_cases hau : W.actor a = u
        · simp [hau]
        · rwa [Function.update_of_ne hau]
      obtain ⟨f', hrun, hs'⟩ := hfrom (hstate'.trans hstate) hi hnone
      refine ⟨[.notify u picked, .compare (W.actor a)], f', by simp, by simp [SleepyAction.act?], ?_,
        hs'⟩
      exact Option.bind_eq_some_iff.mpr ⟨g, hnotify,
        Option.bind_eq_some_iff.mpr ⟨i, hcompare, hrun⟩⟩

theorem refines_of_reachable (hlaw : W.Lawful) (h : W.sleepy.Reachable f) : Refines W f where
  reached := (sound_of_reachable hlaw h).reached
  steps _ _ hstep := sleepyStep_state hstep
  woken := (sound_of_reachable hlaw h).alarmed
  matched _ _ hstep := (sound_of_reachable hlaw h).matched hlaw hstep

/-! ## Fairness -/

/-- What keeps an actor from its next step: it sleeps, it has to compare, or it has to notify. -/
def Sleepy.resting (f : Sleepy State Actor Word) (w : Actor) : ℕ :=
  match f.mode w with
  | .asleep _ => 2
  | .loaded _ => 1
  | .awake => if (f.owes w).isSome then 1 else 0

/-- Who can bring the actor nearer to its next step: itself with a comparison, or somebody with a
notification. -/
def Rouses (f : Sleepy State Actor Word) (w : Actor) : Option Actor → Prop
  | none => ∃ old, f.mode w = .loaded old
  | some u => ∃ word, f.owes u = some word ∧ (f.mode w = .awake ∧ u = w ∨ w ∈ f.sleepers word)

omit [DecidableEq Actor] [DecidableEq Word] in
theorem resting_eq_zero : f.resting w = 0 ↔ f.mode w = .awake ∧ f.owes w = none := by
  unfold Sleepy.resting
  split <;> simp_all

omit [DecidableEq Actor] [DecidableEq Word] in
theorem resting_asleep (h : f.mode w = .asleep old) : f.resting w = 2 := by
  rw [Sleepy.resting, h]

omit [DecidableEq Actor] [DecidableEq Word] in
theorem resting_loaded (old : ℕ) (h : f.mode w = .loaded old) : f.resting w = 1 := by
  rw [Sleepy.resting, h]

/-- The wait of the actor is over. -/
def Over (W : Waits State Action Actor Word) (f : Sleepy State Actor Word) (w : Actor) : Prop :=
  ∀ word stays, W.waits f.state w = some (word, stays) → stays (W.value f.state word) = false

omit [DecidableEq Actor] [DecidableEq Word] in
theorem Over.changed (hover : Over W f w) (h : Placed W f) (hold : (f.mode w).old? = some old)
    (hwaits : W.waits f.state w = some (word, stays)) : W.value f.state word ≠ old := by
  obtain ⟨word', stays', hwaits', hstays⟩ := h.waiting w old hold
  obtain ⟨rfl, rfl⟩ := Prod.mk.inj (Option.some.inj (hwaits.symm.trans hwaits'))
  rintro rfl
  exact absurd ((hover word stays hwaits).symm.trans hstays) nofun

/-- The actions by which the actor is brought nearer to its next step. -/
def rouses (w : Actor) : Option Actor → SleepyAction Action Actor → Prop
  | none, b => b = .compare w
  | some u, b => ∃ picked, b = .notify u picked

/-- The actor comes nearer to its next step, or whoever can bring it nearer still has to. -/
def Nearer (f f' : Sleepy State Actor Word) (w : Actor) (b : SleepyAction Action Actor) : Prop :=
  f'.resting w < f.resting w ∨ f'.resting w = f.resting w ∧
    ∀ helper, Rouses f w helper → Rouses f' w helper ∧ ¬ rouses w helper b

variable {b : SleepyAction Action Actor}

omit [DecidableEq Actor] [DecidableEq Word] in
theorem nearer_of_same (hmode : f'.mode w = f.mode w) (howes : f'.owes w = f.owes w)
    (hcompare : b ≠ .compare w) (hnotify : ∀ u picked, b ≠ .notify u picked)
    (hkeep : ∀ u word, f.owes u = some word →
      f'.owes u = some word ∧ (w ∈ f.sleepers word → w ∈ f'.sleepers word)) : Nearer f f' w b := by
  refine .inr ⟨by rw [Sleepy.resting, Sleepy.resting, hmode, howes], ?_⟩
  intro helper hrouses
  cases helper with
  | none => exact ⟨by rwa [Rouses, hmode], hcompare⟩
  | some u =>
      obtain ⟨word, hu, hw⟩ := hrouses
      obtain ⟨hu', hqueue⟩ := hkeep u word hu
      refine ⟨⟨word, hu', hw.imp (fun h => ⟨hmode.trans h.1, h.2⟩) hqueue⟩, ?_⟩
      rintro ⟨picked, rfl⟩
      exact hnotify u picked rfl

omit [DecidableEq Word] in
/-- A notification passes an actor that does not sleep on its word. -/
theorem nearer_of_notify {v : Actor} {picked : ℕ} (h : Placed W f) (howes : f.owes v = some word)
    (hnot : w ∉ f.sleepers word) (hmode : f'.mode w = f.mode w)
    (hpaid : f'.owes = Function.update f.owes v none)
    (hsleepers : ∀ other, other ≠ word → f'.sleepers other = f.sleepers other) :
    Nearer f f' w (.notify v picked : SleepyAction Action Actor) := by
  by_cases hv : v = w
  · subst hv
    have hawake := h.owing v word howes
    left
    simp [Sleepy.resting, hmode, hpaid, hawake, howes]
  · have howes' : f'.owes w = f.owes w := by rw [hpaid, Function.update_of_ne (Ne.symm hv)]
    refine .inr ⟨by rw [Sleepy.resting, Sleepy.resting, hmode, howes'], ?_⟩
    intro helper hrouses
    cases helper with
    | none => exact ⟨by rwa [Rouses, hmode], nofun⟩
    | some u =>
        obtain ⟨other, hu, hw⟩ := hrouses
        have huv : u ≠ v := by
          rintro rfl
          obtain rfl := Option.some.inj (hu.symm.trans howes)
          rcases hw with ⟨-, rfl⟩ | hmem
          · exact hv rfl
          · exact hnot hmem
        refine ⟨⟨other, by rw [hpaid, Function.update_of_ne huv, hu], ?_⟩, ?_⟩
        · refine hw.imp (fun hawake => ⟨hmode.trans hawake.1, hawake.2⟩) fun hmem => ?_
          rwa [hsleepers other fun heq => hnot (heq ▸ hmem)]
        · rintro ⟨_, hnotify⟩
          exact huv (SleepyAction.notify.inj hnotify).1.symm

/-- An actor whose wait is over is brought nearer to its next step by the others, or left as it
is. -/
theorem SleepyStep.nearer (hlaw : W.Lawful) (h : Placed W f) (hover : Over W f w)
    (hother : b.Acts (W.actor · ≠ w)) (hstep : SleepyStep W f b f') : Nearer f f' w b := by
  cases hstep with
  | @act a _ hawake hnone hnext =>
      have hw : w ≠ W.actor a := (hother a rfl).symm
      refine nearer_of_same rfl (Function.update_of_ne hw _ _) nofun nofun fun u word hu => ?_
      have hne : u ≠ W.actor a := by
        rintro rfl
        rw [hnone] at hu
        contradiction
      exact ⟨(Function.update_of_ne hne _ _).trans hu, id⟩
  | @load v word stays hawake hnone hwaits hstays =>
      have hw : w ≠ v := by
        rintro rfl
        exact absurd ((hover word stays hwaits).symm.trans hstays) nofun
      exact nearer_of_same (Function.update_of_ne hw _ _) rfl nofun nofun fun _ _ hu => ⟨hu, id⟩
  | @sleep v old word stays hmode hwaits hvalue =>
      have hw : w ≠ v := by
        rintro rfl
        exact hover.changed h (by rw [hmode]; rfl) hwaits hvalue
      refine nearer_of_same (Function.update_of_ne hw _ _) rfl ?_ nofun fun u other hu => ⟨hu, ?_⟩
      · rintro ⟨⟩
        exact hw rfl
      · intro hmem
        by_cases hword : other = word
        · subst hword
          simp [hmem]
        · simpa [Function.update_of_ne hword] using hmem
  | @rise v old word stays hmode hwaits hvalue =>
      by_cases hw : w = v
      · subst hw
        left
        rw [resting_loaded old hmode, resting_eq_zero.mpr ⟨Function.update_self .., ?_⟩]
        · exact Nat.one_pos
        · exact h.owes_none (by simp [hmode])
      · refine nearer_of_same (Function.update_of_ne hw _ _) rfl ?_ nofun fun _ _ hu => ⟨hu, id⟩
        rintro ⟨⟩
        exact hw rfl
  | @notifyAll v picked word howes hall =>
      by_cases hmem : w ∈ f.sleepers word
      · obtain ⟨⟨old, hmode⟩, -⟩ := (h.queued w word).mp hmem
        left
        rw [resting_asleep hmode, resting_loaded old]
        · exact Nat.one_lt_two
        · simp [hmem, hmode, Mode.woken]
      · exact nearer_of_notify h howes hmem (if_neg hmem) rfl fun other hne =>
          Function.update_of_ne hne _ _
  | @notifyNone v picked word howes hone hnone =>
      exact nearer_of_notify h howes (by simp [hnone]) rfl rfl fun _ _ => rfl
  | @notifyOne v u picked word howes hone hpicked =>
      have hu := List.mem_of_getElem? hpicked
      obtain ⟨⟨old, hmode⟩, stays, hwaits⟩ := (h.queued u word).mp hu
      by_cases hw : w = u
      · subst hw
        left
        rw [resting_asleep hmode, resting_loaded old]
        · exact Nat.one_lt_two
        · simp [hmode, Mode.woken]
      · refine nearer_of_notify h howes ?_ (Function.update_of_ne hw _ _) rfl fun other hne =>
          Function.update_of_ne hne _ _
        intro hmem
        obtain ⟨-, stays', hwaits'⟩ := (h.queued w word).mp hmem
        exact hw (hlaw.sole _ w u word stays' stays h.reached hone hwaits' hwaits)

omit [DecidableEq Actor] [DecidableEq Word] in
/-- Somebody can bring the actor nearer to its next step, and is not kept from it. -/
theorem Sound.roused (h : Sound W f) (hover : Over W f w) (hresting : f.resting w ≠ 0) :
    ∃ helper, Rouses f w helper := by
  cases hmode : f.mode w with
  | loaded old => exact ⟨none, old, hmode⟩
  | awake =>
      cases howes : f.owes w with
      | none => exact absurd (resting_eq_zero.mpr ⟨hmode, howes⟩) hresting
      | some word => exact ⟨some w, word, howes, .inl ⟨hmode, rfl⟩⟩
  | asleep old =>
      obtain ⟨word, stays, hwaits, -⟩ := h.waiting w old (by rw [hmode]; rfl)
      obtain ⟨u, hu⟩ := (h.alarmed w old word stays hmode hwaits).resolve_left
        (by simp [hover word stays hwaits])
      exact ⟨some u, word, hu, .inr ((h.queued w word).mpr ⟨⟨old, hmode⟩, stays, hwaits⟩)⟩

theorem Sound.rouses_ready (h : Sound W f) {helper : Option Actor} (hrouses : Rouses f w helper) :
    ∃ b, rouses w helper b ∧ (W.sleepy.step f b).isSome = true := by
  cases helper with
  | none =>
      obtain ⟨old, hmode⟩ := hrouses
      obtain ⟨word, stays, hwaits, -⟩ := h.waiting w old (by rw [hmode]; rfl)
      refine ⟨.compare w, rfl, ?_⟩
      simp only [sleepy, sleepyStep, hmode, hwaits]
      split <;> rfl
  | some u =>
      obtain ⟨word, howes, hw⟩ := hrouses
      obtain ⟨picked, f', hnotify, -⟩ := notify_wakes howes (hw.imp_left And.left)
      exact ⟨.notify u picked, ⟨picked, rfl⟩, Option.isSome_iff_exists.mpr ⟨f', hnotify⟩⟩

variable {σ : ℕ → Sleepy State Actor Word} {ok : SleepyAction Action Actor → Prop}
  {moves : Action → Prop}

variable (W) in
/-- No comparison of an actor and no notification is put off for ever. -/
def Rousing (σ : ℕ → Sleepy State Actor Word) : Prop :=
  ∀ w helper, W.sleepy.WeaklyFair σ (rouses w helper)

theorem behaviour_state {kind : Action → Prop} (h : W.sleepy.Behaviour (·.Acts kind) σ) :
    W.base.Behaviour kind fun k => (σ k).state := by
  intro k
  rcases h k with heq | ⟨b, hb, hstep⟩
  · exact .inl (congrArg Sleepy.state heq)
  · rcases sleepyStep_state hstep with ⟨a, rfl, hnext⟩ | ⟨-, hstate⟩
    · exact .inr ⟨a, hb a rfl, hnext⟩
    · exact .inl hstate

/-- An actor whose wait is over can take its next step some day. -/
theorem leadsTo_awake (hlaw : W.Lawful)
    (h : W.sleepy.Behaviour (·.Acts (W.actor · ≠ w)) σ)
    (hI : ∀ k, Sound W (σ k) ∧ Over W (σ k) w) (hrousing : W.Rousing σ) :
    LeadsTo σ (fun f => f.resting w ≠ 0) fun f => f.resting w = 0 := by
  have hnearer : ∀ f b f', Sound W f ∧ Over W f w → b.Acts (W.actor · ≠ w) →
      W.sleepy.step f b = some f' → Nearer f f' w b :=
    fun f b f' hs hother hstep => (sleepyStep_cases hstep).nearer hlaw hs.1.toPlaced hs.2 hother
  refine h.leadsTo_of_helpful (I := fun f => Sound W f ∧ Over W f w) (Rouses · w)
    (Sleepy.resting · w) hI (hrousing w) ?_ ?_ ?_ ?_
  · intro f hs hresting
    exact hs.1.roused hs.2 hresting
  · intro f helper hs _ hrouses
    exact hs.1.rouses_ready hrouses
  · intro f b f' helper hs hresting hrouses hother hstep
    by_cases hzero : f'.resting w = 0
    · exact .inl hzero
    · refine .inr ⟨hzero, (hnearer f b f' hs hother hstep).imp_right fun ⟨heq, hkeep⟩ => ?_⟩
      exact ⟨(hkeep helper hrouses).1, heq⟩
  · intro f b f' helper hs hresting hrouses hmove hstep
    have hother : b.Acts (W.actor · ≠ w) := by
      rintro a rfl
      cases helper with
      | none => contradiction
      | some u =>
          obtain ⟨_, hact⟩ := hmove
          contradiction
    by_cases hzero : f'.resting w = 0
    · exact .inl hzero
    · refine .inr ⟨hzero, ?_⟩
      rcases hnearer f b f' hs hother hstep with hlt | ⟨-, hkeep⟩
      · exact hlt
      · exact absurd hmove (hkeep helper hrouses).2

/-- Sleeping keeps nobody from its turn: moves of one actor that are not put off for ever by an
actor that is awake are not put off for ever in the base system. -/
theorem weaklyFair_state (hlaw : W.Lawful) (hstart : W.sleepy.Reachable (σ 0))
    (h : W.sleepy.Behaviour ok σ) (hrousing : W.Rousing σ) (hactor : ∀ a, moves a → W.actor a = w)
    (hsame : ∀ s a b, moves a → (W.base.step s a).isSome = true → W.actor b = w →
      (W.base.step s b).isSome = true → moves b)
    (hact : W.sleepy.WeaklyFair σ (·.Of moves)) :
    W.base.WeaklyFair (fun k => (σ k).state) moves := by
  intro k hready
  by_contra hnone
  have hreach : ∀ i, W.sleepy.Reachable (σ i) :=
    (h.mono fun _ _ => trivial).reachableWhere hstart
  have hover : ∀ i, Sound W (σ (k + i)) ∧ Over W (σ (k + i)) w := by
    intro i
    have hsound := sound_of_reachable hlaw (hreach (k + i))
    refine ⟨hsound, fun word stays hwaits => ?_⟩
    obtain ⟨a, ha, hisSome⟩ := hready (k + i) (Nat.le_add_right k i)
    by_contra hstays
    rw [hlaw.stuck _ a word stays hsound.reached (hactor a ha ▸ hwaits) (by simpa using hstays)]
      at hisSome
    contradiction
  -- none of the moves is taken, so the actor takes no step at all
  have hothers : W.sleepy.Behaviour (·.Acts (W.actor · ≠ w)) fun i => σ (k + i) := by
    intro i
    refine (h (k + i)).imp_right fun ⟨b, _, hstep⟩ => ⟨b, ?_, hstep⟩
    rintro a rfl hw
    obtain ⟨a', ha', hisSome⟩ := hready (k + i) (Nat.le_add_right k i)
    have hnext := act_state hstep
    have ha := hsame _ a' a ha' hisSome hw (Option.isSome_iff_exists.mpr ⟨_, hnext⟩)
    exact hnone ⟨k + i, a, Nat.le_add_right k i, ha, hnext⟩
  have hawake : ∃ i, (σ (k + i)).resting w = 0 := by
    by_cases hzero : (σ (k + 0)).resting w = 0
    · exact ⟨0, hzero⟩
    · obtain ⟨i, -, hi⟩ := leadsTo_awake hlaw hothers hover
        (fun w helper => (hrousing w helper).shift k) 0 hzero
      exact ⟨i, hi⟩
  obtain ⟨n, hn⟩ := hawake
  have hstill : ∀ i, n ≤ i → (σ (k + i)).resting w = 0 := by
    intro i hni
    induction i, hni using Nat.le_induction with
    | base => exact hn
    | succ i hni ih =>
        rcases hothers i with heq | ⟨b, hother, hstep⟩
        · exact (congrArg (Sleepy.resting · w) heq).trans ih
        · rcases (sleepyStep_cases hstep).nearer hlaw (hover i).1.toPlaced (hover i).2 hother with
            hlt | ⟨heq, -⟩
          · omega
          · exact heq.trans ih
  have henabled : ∀ j, k + n ≤ j →
      ∃ b, b.Of moves ∧ (W.sleepy.step (σ j) b).isSome = true := by
    intro j hj
    obtain ⟨i, rfl⟩ := Nat.exists_eq_add_of_le (Nat.le_of_add_right_le hj)
    obtain ⟨hmode, howes⟩ := resting_eq_zero.mp (hstill i (by omega))
    obtain ⟨a, ha, hisSome⟩ := hready (k + i) (Nat.le_add_right k i)
    obtain ⟨s', hnext⟩ := Option.isSome_iff_exists.mp hisSome
    obtain ⟨f', hstep, -⟩ := act_of_awake (hactor a ha ▸ hmode) (hactor a ha ▸ howes) hnext
    exact ⟨.act a, ⟨a, ha, rfl⟩, Option.isSome_iff_exists.mpr ⟨f', hstep⟩⟩
  obtain ⟨j, _, hkj, ⟨a, ha, rfl⟩, hstep⟩ := hact (k + n) henabled
  exact hnone ⟨j, a, by omega, ha, act_state hstep⟩

end Waits

end Unlog.Library
