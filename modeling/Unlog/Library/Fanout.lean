import Unlog.Library.Transition

/-! # A fan-out service

What a log is for: bounded lanes accept items, each item goes to several sinks in the order of its
lane, and a client that asks is answered when all that had returned before it is with its sinks and
these were flushed. -/

namespace Unlog.Library

universe u v w x

/-- How many items may wait in a lane, where a payload goes, and which sinks a flush reaches. -/
structure Fanout (Lane : Type u) (Payload : Type v) (Sink : Type w) where
  capacity : Lane → ℕ
  targets : Payload → List Sink
  sinks : List Sink

namespace Fanout

variable {Lane : Type u} {Payload : Type v} {Sink : Type w} {Client : Type x}

/-- What a sink gets: the item of that number in a lane, or a flush. -/
inductive Entry (Lane : Type u) where
  | item (lane : Lane) (number : ℕ)
  | flushed

/-- All items that were accepted are kept; `taken` of a lane have gone to their sinks. -/
structure State (Lane : Type u) (Payload : Type v) (Sink : Type w) (Client : Type x) where
  accepted : Lane → List Payload := fun _ => []
  taken : Lane → ℕ := fun _ => 0
  seen : Sink → List (Entry Lane) := fun _ => []
  returned : List (Lane × ℕ) := []
  asked : Client → Option (List (Lane × ℕ)) := fun _ => none
  running : Bool := true

inductive Action (Lane : Type u) (Payload : Type v) (Client : Type x) where
  | accept (lane : Lane) (payload : Payload)
  | returned (lane : Lane) (number : ℕ)
  | deliver (lane : Lane)
  | flush
  | ask (client : Client)
  | refuse (client : Client)
  | answer (client : Client)
  | stop
  deriving DecidableEq

/-- The item is with its sinks, and all sinks were flushed since. -/
def Settled (spec : Fanout Lane Payload Sink) (f : State Lane Payload Sink Client)
    (item : Lane × ℕ) : Prop :=
  item.2 < f.taken item.1 ∧ ∀ sink ∈ spec.sinks, ∃ before after,
    f.seen sink = before ++ after ∧ .item item.1 item.2 ∉ after ∧ .flushed ∈ after

variable [DecidableEq Lane] [DecidableEq Sink] [DecidableEq Client]

open Classical in
/-- A client may be refused only when the service no longer runs. -/
noncomputable def step (spec : Fanout Lane Payload Sink) (f : State Lane Payload Sink Client) :
    Action Lane Payload Client → Option (State Lane Payload Sink Client)
  | .accept lane payload =>
    if (f.accepted lane).length - f.taken lane < spec.capacity lane then
      some { f with accepted := Function.update f.accepted lane (f.accepted lane ++ [payload]) }
    else none
  | .returned lane number =>
    if number < (f.accepted lane).length ∧ (lane, number) ∉ f.returned then
      some { f with returned := (lane, number) :: f.returned }
    else none
  | .deliver lane =>
    match (f.accepted lane)[f.taken lane]? with
    | none => none
    | some payload =>
      some { f with
        taken := Function.update f.taken lane (f.taken lane + 1)
        seen := fun sink => f.seen sink ++
          List.replicate ((spec.targets payload).count sink) (.item lane (f.taken lane)) }
  | .flush =>
    some { f with
      seen := fun sink => f.seen sink ++ List.replicate (spec.sinks.count sink) .flushed }
  | .ask client =>
    if (f.asked client).isNone then
      some { f with asked := Function.update f.asked client (some f.returned) }
    else none
  | .refuse client =>
    if f.running then none else some { f with asked := Function.update f.asked client none }
  | .answer client =>
    match f.asked client with
    | none => none
    | some before =>
      if ∀ item ∈ before, Settled spec f item then
        some { f with asked := Function.update f.asked client none }
      else none
  | .stop => some { f with running := false }

/-- The service as a transition system. -/
noncomputable def service (spec : Fanout Lane Payload Sink) (Client : Type x)
    [DecidableEq Client] :
    System (State Lane Payload Sink Client) (Action Lane Payload Client) where
  Initial f := f = {}
  step := step spec

/-! ## Order -/

/-- The number of an entry of the lane. -/
def Entry.number? (lane : Lane) : Entry Lane → Option ℕ
  | .item lane' number => if lane' = lane then some number else none
  | .flushed => none

/-- The items of the lane that a sink has seen, in the order in which it got them. -/
def numbersAt (f : State Lane Payload Sink Client) (sink : Sink) (lane : Lane) : List ℕ :=
  (f.seen sink).filterMap (Entry.number? lane)

/-- How often the item of that number goes to a sink. -/
def share (spec : Fanout Lane Payload Sink) (f : State Lane Payload Sink Client) (sink : Sink)
    (lane : Lane) (n : ℕ) : ℕ :=
  match (f.accepted lane)[n]? with
  | none => 0
  | some payload => (spec.targets payload).count sink

/-- Each sink has its share of what was taken from a lane, in the order of acceptance. -/
structure Ordered (spec : Fanout Lane Payload Sink) (f : State Lane Payload Sink Client) :
    Prop where
  bounded : ∀ lane, f.taken lane ≤ (f.accepted lane).length
  fits : ∀ lane, (f.accepted lane).length - f.taken lane ≤ spec.capacity lane
  numbers : ∀ sink lane, numbersAt f sink lane =
    (List.range (f.taken lane)).flatMap fun n => List.replicate (share spec f sink lane n) n

variable {spec : Fanout Lane Payload Sink} {f f' : State Lane Payload Sink Client} {lane : Lane}
  {payload : Payload}

omit [DecidableEq Client] in
/-- Items that were taken stay where they are when others are accepted. -/
theorem share_accept {f' : State Lane Payload Sink Client}
    (hle : ∀ lane, f.taken lane ≤ (f.accepted lane).length)
    (haccepted : f'.accepted = Function.update f.accepted lane (f.accepted lane ++ [payload]))
    {sink : Sink} {other : Lane} {n : ℕ} (hn : n < f.taken other) :
    share spec f' sink other n = share spec f sink other n := by
  by_cases hother : other = lane
  · subst hother
    have hlt := Nat.lt_of_lt_of_le hn (hle other)
    simp only [share, haccepted, Function.update_self, List.getElem?_append_left hlt]
  · simp only [share, haccepted, Function.update_of_ne hother]

omit [DecidableEq Sink] [DecidableEq Client] in
theorem numbersAt_append {entries : List (Entry Lane)} {sink : Sink} {other : Lane}
    (hseen : f'.seen sink = f.seen sink ++ entries) :
    numbersAt f' sink other = numbersAt f sink other ++ entries.filterMap (Entry.number? other) := by
  rw [numbersAt, hseen, List.filterMap_append, numbersAt]

theorem filterMap_replicate_self (n number : ℕ) :
    (List.replicate n (Entry.item lane number)).filterMap (Entry.number? lane) =
      List.replicate n number := by
  simp [Entry.number?]

theorem filterMap_replicate_of_ne {other : Lane} (hne : lane ≠ other) (n number : ℕ) :
    (List.replicate n (Entry.item lane number)).filterMap (Entry.number? other) = [] := by
  simp [Entry.number?, hne]

omit [DecidableEq Client] in
theorem Ordered.deliver (h : Ordered spec f)
    (hpayload : (f.accepted lane)[f.taken lane]? = some payload) :
    Ordered spec { f with
      taken := Function.update f.taken lane (f.taken lane + 1)
      seen := fun sink => f.seen sink ++
        List.replicate ((spec.targets payload).count sink) (.item lane (f.taken lane)) } := by
  have hlt := (List.getElem?_eq_some_iff.mp hpayload).1
  refine ⟨fun other => ?_, fun other => ?_, fun sink other => ?_⟩
  · by_cases hother : other = lane
    · subst hother
      simpa using hlt
    · simpa [Function.update_of_ne hother] using h.bounded other
  · have hfits := h.fits other
    by_cases hother : other = lane
    · subst hother
      simp only [Function.update_self]
      omega
    · simpa [Function.update_of_ne hother] using hfits
  · rw [numbersAt_append rfl, h.numbers sink other]
    by_cases hother : other = lane
    · subst hother
      have hshare : share spec f sink other (f.taken other) = (spec.targets payload).count sink := by
        simp only [share, hpayload]
      simp only [Function.update_self, List.range_succ, List.flatMap_append,
        List.flatMap_singleton, filterMap_replicate_self]
      rw [← hshare]
      rfl
    · simp only [Function.update_of_ne hother, filterMap_replicate_of_ne (Ne.symm hother),
        List.append_nil]
      rfl

omit [DecidableEq Client] in
theorem Ordered.accept (h : Ordered spec f)
    (hroom : (f.accepted lane).length - f.taken lane < spec.capacity lane) :
    Ordered spec { f with
      accepted := Function.update f.accepted lane (f.accepted lane ++ [payload]) } := by
  refine ⟨fun other => ?_, fun other => ?_, fun sink other => ?_⟩
  · have hbounded := h.bounded other
    by_cases hother : other = lane
    · subst hother
      simp only [Function.update_self, List.length_append, List.length_singleton]
      omega
    · simpa [Function.update_of_ne hother] using hbounded
  · by_cases hother : other = lane
    · subst hother
      simp only [Function.update_self, List.length_append, List.length_singleton]
      omega
    · simpa [Function.update_of_ne hother] using h.fits other
  · refine (h.numbers sink other).trans (List.flatMap_congr fun n hn => ?_)
    exact congrArg (List.replicate · n) (share_accept h.bounded rfl (List.mem_range.mp hn)).symm

theorem Ordered.step {b : Action Lane Payload Client} (h : Ordered spec f)
    (hstep : Fanout.step spec f b = some f') : Ordered spec f' := by
  cases b with
  | accept lane payload =>
      simp only [Fanout.step] at hstep
      split at hstep
      case isTrue hroom =>
        obtain rfl := Option.some.inj hstep
        exact h.accept hroom
      case isFalse => contradiction
  | deliver lane =>
      simp only [Fanout.step] at hstep
      split at hstep
      case h_1 => contradiction
      case h_2 payload hpayload =>
        obtain rfl := Option.some.inj hstep
        exact h.deliver hpayload
  | flush =>
      obtain rfl := Option.some.inj hstep
      refine ⟨h.bounded, h.fits, fun sink lane => ?_⟩
      rw [numbersAt_append rfl, h.numbers sink lane]
      simp [List.filterMap_replicate, Entry.number?, share]
  | returned lane number =>
      simp only [Fanout.step] at hstep
      split at hstep
      case isTrue =>
        obtain rfl := Option.some.inj hstep
        exact ⟨h.bounded, h.fits, h.numbers⟩
      case isFalse => contradiction
  | ask client =>
      simp only [Fanout.step] at hstep
      split at hstep
      case isTrue =>
        obtain rfl := Option.some.inj hstep
        exact ⟨h.bounded, h.fits, h.numbers⟩
      case isFalse => contradiction
  | refuse client =>
      simp only [Fanout.step] at hstep
      split at hstep
      case isTrue => contradiction
      case isFalse =>
        obtain rfl := Option.some.inj hstep
        exact ⟨h.bounded, h.fits, h.numbers⟩
  | answer client =>
      simp only [Fanout.step] at hstep
      split at hstep
      case h_1 => contradiction
      case h_2 before hasked =>
        split at hstep
        case isTrue =>
          obtain rfl := Option.some.inj hstep
          exact ⟨h.bounded, h.fits, h.numbers⟩
        case isFalse => contradiction
  | stop =>
      obtain rfl := Option.some.inj hstep
      exact ⟨h.bounded, h.fits, h.numbers⟩

theorem ordered_of_reachable (h : (spec.service Client).Reachable f) : Ordered spec f := by
  refine h.invariant ?_ fun f b f' _ hf hstep => hf.step hstep
  rintro _ rfl
  exact ⟨fun _ => le_rfl, fun _ => Nat.zero_le _, fun _ _ => rfl⟩

end Fanout

end Unlog.Library
