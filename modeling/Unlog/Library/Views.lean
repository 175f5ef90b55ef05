import Mathlib

/-! # Release and acquire views

Every location has a history of messages, and every party knows each location up to one of them.
What is written with release carries what its writer knows. -/

namespace Unlog.Library

universe u v w

/-- The memory order of an access. -/
inductive Order where
  | relaxed | acquire | release | acqRel
  deriving DecidableEq, Repr

def Order.acquires : Order → Bool
  | .acquire | .acqRel => true
  | .relaxed | .release => false

def Order.releases : Order → Bool
  | .release | .acqRel => true
  | .relaxed | .acquire => false

/-- For each location, the position up to which its history is known. -/
abbrev View (Loc : Type u) := Loc → ℕ

structure Message (Loc : Type u) (Val : Type v) where
  value : Val
  view : View Loc

/-- The next access of a program, and what the program does after it. An update is not possible
where it has no new value. -/
inductive Access (Loc : Type u) (Val : Type v) (Program : Type w) where
  | skip (next : Program)
  | read (o : Order) (l : Loc) (next : Val → Program)
  | write (o : Order) (l : Loc) (value : Val) (next : Program)
  | update (o : Order) (l : Loc) (f : Val → Option Val) (next : Val → Program)

/-- The histories, what each party knows, and the messages that it has acquired. -/
structure Memory (Party : Type u) (Loc : Type u) (Val : Type v) where
  history : Loc → List (Message Loc Val)
  view : Party → View Loc
  acquired : Party → List (Loc × ℕ)

/-- The location that an access writes. -/
def Access.written? {Loc : Type u} {Val : Type v} {Program : Type w} :
    Access Loc Val Program → Option Loc
  | .skip _ | .read .. => none
  | .write _ l .. | .update _ l .. => some l

namespace Memory

variable {Party Loc : Type u} {Val : Type v} {Program : Type w} [DecidableEq Party]
  [DecidableEq Loc] (m : Memory Party Loc Val) (p : Party) (o : Order) (l : Loc)

/-- The party reads the message at position `i`. -/
def reads (i : ℕ) (message : Message Loc Val) : Memory Party Loc Val :=
  { m with
    view := Function.update m.view p
      (m.view p ⊔ (if o.acquires then message.view else ⊥) ⊔ Pi.single l i)
    acquired :=
      if o.acquires then Function.update m.acquired p ((l, i) :: m.acquired p) else m.acquired }

/-- The party writes a message that carries `carried`, and with release all it knows. -/
def writes (value : Val) (carried : View Loc) : Memory Party Loc Val :=
  let known := m.view p ⊔ Pi.single l (m.history l).length
  { m with
    history := Function.update m.history l (m.history l ++
      [⟨value, carried ⊔ if o.releases then known else Pi.single l (m.history l).length⟩])
    view := Function.update m.view p known }

/-- A read is of any message not older than those known. An update reads the last message, and
its own goes on with the release sequence of that one. -/
def perform (i : ℕ) : Access Loc Val Program → Option (Memory Party Loc Val × Program)
  | .skip next => some (m, next)
  | .read o l next =>
    if m.view p l ≤ i then
      ((m.history l)[i]?).map fun message => (m.reads p o l i message, next message.value)
    else none
  | .write o l value next => some (m.writes p o l value ⊥, next)
  | .update o l f next =>
    ((m.history l).getLast?).bind fun message =>
      (f message.value).map fun value =>
        ((m.reads p o l ((m.history l).length - 1) message).writes p o l value message.view,
          next message.value)

variable {m p o l} {m' : Memory Party Loc Val} {q : Party} {i n : ℕ} {message : Message Loc Val}
  {value : Val} {carried : View Loc} {a : Access Loc Val Program} {next : Program}

/-- What an access does. -/
inductive Performs (m : Memory Party Loc Val) (p : Party) (i : ℕ) :
    Access Loc Val Program → Memory Party Loc Val → Program → Prop
  | skip {next : Program} : Performs m p i (.skip next) m next
  | read {o : Order} {l : Loc} {next : Val → Program} {message : Message Loc Val}
      (hle : m.view p l ≤ i) (hmessage : (m.history l)[i]? = some message) :
      Performs m p i (.read o l next) (m.reads p o l i message) (next message.value)
  | write {o : Order} {l : Loc} {value : Val} {next : Program} :
      Performs m p i (.write o l value next) (m.writes p o l value ⊥) next
  | update {o : Order} {l : Loc} {f : Val → Option Val} {next : Val → Program}
      {message : Message Loc Val} {value : Val} (hlast : (m.history l).getLast? = some message)
      (hvalue : f message.value = some value) :
      Performs m p i (.update o l f next)
        ((m.reads p o l ((m.history l).length - 1) message).writes p o l value message.view)
        (next message.value)

theorem performs_of (h : m.perform p i a = some (m', next)) : Performs m p i a m' next := by
  cases a with
  | skip =>
      obtain ⟨rfl, rfl⟩ := Prod.mk.inj (Option.some.inj h)
      exact .skip
  | read o l k =>
      simp only [perform] at h
      split at h
      case isTrue hle =>
        obtain ⟨message, hmessage, heq⟩ := Option.map_eq_some_iff.mp h
        obtain ⟨rfl, rfl⟩ := Prod.mk.inj heq
        exact .read hle hmessage
      case isFalse => contradiction
  | write =>
      obtain ⟨rfl, rfl⟩ := Prod.mk.inj (Option.some.inj h)
      exact .write
  | update o l f k =>
      obtain ⟨message, hlast, hrest⟩ := Option.bind_eq_some_iff.mp h
      obtain ⟨value, hvalue, heq⟩ := Option.map_eq_some_iff.mp hrest
      obtain ⟨rfl, rfl⟩ := Prod.mk.inj heq
      exact .update hlast hvalue

/-! ## Small steps -/

theorem reads_view_self : (m.reads p o l i message).view p =
    m.view p ⊔ (if o.acquires then message.view else ⊥) ⊔ Pi.single l i :=
  Function.update_self ..

theorem reads_view_of_ne (h : q ≠ p) : (m.reads p o l i message).view q = m.view q :=
  Function.update_of_ne h ..

theorem writes_history_self : (m.writes p o l value carried).history l = m.history l ++
    [⟨value, carried ⊔ if o.releases then m.view p ⊔ Pi.single l (m.history l).length
      else Pi.single l (m.history l).length⟩] :=
  Function.update_self ..

theorem writes_history_of_ne {l' : Loc} (h : l' ≠ l) :
    (m.writes p o l value carried).history l' = m.history l' :=
  Function.update_of_ne h ..

theorem writes_view_self : (m.writes p o l value carried).view p =
    m.view p ⊔ Pi.single l (m.history l).length :=
  Function.update_self ..

theorem writes_view_of_ne (h : q ≠ p) : (m.writes p o l value carried).view q = m.view q :=
  Function.update_of_ne h ..

@[simp] theorem writes_acquired : (m.writes p o l value carried).acquired = m.acquired := rfl

/-- Histories only grow. -/
theorem grows_writes (l' : Loc) :
    m.history l' <+: (m.writes p o l value carried).history l' := by
  by_cases h : l' = l
  · subst h
    rw [writes_history_self]
    exact List.prefix_append ..
  · rw [writes_history_of_ne h]

theorem Performs.grows (h : Performs m p i a m' next) (l : Loc) :
    m.history l <+: m'.history l := by
  cases h with
  | skip | read => exact List.prefix_rfl
  | write => exact grows_writes l
  | update => exact grows_writes (m := m.reads ..) l

theorem Performs.history_of_ne (h : Performs m p i a m' next) (hl : a.written? ≠ some l) :
    m'.history l = m.history l := by
  cases h with
  | skip | read => rfl
  | write => exact writes_history_of_ne fun heq => hl (congrArg some heq.symm)
  | update =>
      exact (writes_history_of_ne (m := m.reads ..) fun heq => hl (congrArg some heq.symm)).trans
        rfl

theorem Performs.view_of_ne (h : Performs m p i a m' next) (hne : q ≠ p) :
    m'.view q = m.view q := by
  cases h with
  | skip => rfl
  | read => exact reads_view_of_ne hne
  | write => exact writes_view_of_ne hne
  | update => exact (writes_view_of_ne hne).trans (reads_view_of_ne hne)

/-- Nobody forgets. -/
theorem Performs.view_le (h : Performs m p i a m' next) (q : Party) : m.view q ≤ m'.view q := by
  by_cases hq : q = p
  · subst hq
    have hreads : ∀ {o l i message}, m.view q ≤ (m.reads q o l i message).view q := by
      intro o l i message
      rw [reads_view_self]
      exact le_sup_left.trans le_sup_left
    cases h with
    | skip => exact le_rfl
    | read => exact hreads
    | write =>
        rw [writes_view_self]
        exact le_sup_left
    | update =>
        rw [writes_view_self]
        exact hreads.trans le_sup_left
  · exact (h.view_of_ne hq).ge

omit [DecidableEq Party] [DecidableEq Loc] in
theorem getElem?_of_grows {l' : Loc} (h : m.history l' <+: m'.history l')
    (hmessage : (m.history l')[i]? = some message) : (m'.history l')[i]? = some message := by
  obtain ⟨rest, hrest⟩ := h
  have hlt := (List.getElem?_eq_some_iff.mp hmessage).1
  rw [← hrest, List.getElem?_append_left hlt, hmessage]

/-- What a message of the longer history is: an old one, or the one that was written. -/
theorem writes_getElem? {l' : Loc} (h : ((m.writes p o l value carried).history l')[i]? =
      some message) : (m.history l')[i]? = some message ∨
    l' = l ∧ i = (m.history l).length ∧ message = ⟨value, carried ⊔ if o.releases then
      m.view p ⊔ Pi.single l (m.history l).length else Pi.single l (m.history l).length⟩ := by
  by_cases hl : l' = l
  · subst hl
    rw [writes_history_self] at h
    rcases Nat.lt_trichotomy i (m.history l').length with hlt | heq | hgt
    · rw [List.getElem?_append_left hlt] at h
      exact .inl h
    · subst heq
      rw [List.getElem?_concat_length] at h
      exact .inr ⟨rfl, rfl, (Option.some.inj h).symm⟩
    · rw [List.getElem?_eq_none (by simp; omega)] at h
      contradiction
  · rw [writes_history_of_ne hl] at h
    exact .inl h

/-! ## Positions -/

/-- The view is of messages that exist. -/
def Bounded (m : Memory Party Loc Val) (V : View Loc) : Prop :=
  ∀ l, V l < (m.history l).length

/-- A message knows its own position, views are of messages that exist, and who has acquired a
message knows what it carries. -/
structure Sound (m : Memory Party Loc Val) : Prop where
  own : ∀ l (i : ℕ) (message : Message Loc Val), (m.history l)[i]? = some message →
    message.view l = i
  messages : ∀ l (i : ℕ) (message : Message Loc Val), (m.history l)[i]? = some message →
    m.Bounded message.view
  parties : ∀ p, m.Bounded (m.view p)
  acquired : ∀ p l i, (l, i) ∈ m.acquired p →
    ∃ message : Message Loc Val, (m.history l)[i]? = some message ∧ message.view ≤ m.view p

omit [DecidableEq Party] [DecidableEq Loc] in
theorem Bounded.sup {V W : View Loc} (hV : m.Bounded V) (hW : m.Bounded W) : m.Bounded (V ⊔ W) :=
  fun l => max_lt (hV l) (hW l)

omit [DecidableEq Party] [DecidableEq Loc] in
theorem Bounded.bot (h : m.Sound) (p : Party) : m.Bounded ⊥ := fun l =>
  Nat.lt_of_le_of_lt (Nat.zero_le _) (h.parties p l)

omit [DecidableEq Party] [DecidableEq Loc] in
theorem Bounded.grows {V : View Loc} (h : m.Bounded V)
    (hgrows : ∀ l, m.history l <+: m'.history l) : m'.Bounded V := fun l =>
  Nat.lt_of_lt_of_le (h l) (hgrows l).length_le

omit [DecidableEq Party] in
theorem Bounded.single (h : m.Sound) (p : Party) (hi : i < (m.history l).length) :
    m.Bounded (Pi.single l i) := by
  intro l'
  by_cases hl : l' = l
  · subst hl
    rwa [Pi.single_eq_same]
  · rw [Pi.single_eq_of_ne hl]
    exact Bounded.bot h p l'

omit [DecidableEq Party] [DecidableEq Loc] in
theorem Sound.known (h : m.Sound) (p : Party) (l : Loc) :
    ∃ message : Message Loc Val, (m.history l)[m.view p l]? = some message :=
  ⟨_, List.getElem?_eq_getElem (h.parties p l)⟩

theorem Sound.reads (h : m.Sound) (hmessage : (m.history l)[i]? = some message) :
    (m.reads p o l i message).Sound := by
  have hlt := (List.getElem?_eq_some_iff.mp hmessage).1
  refine
    { own := h.own
      messages := h.messages
      parties := fun q => ?_
      acquired := fun q l' j hmem => ?_ }
  · change m.Bounded _
    by_cases hq : q = p
    · subst hq
      rw [reads_view_self]
      refine ((h.parties q).sup ?_).sup (Bounded.single h q hlt)
      split
      · exact h.messages l i message hmessage
      · exact Bounded.bot h q
    · rw [reads_view_of_ne hq]
      exact h.parties q
  · have hmono : m.view q ≤ (m.reads p o l i message).view q := by
      by_cases hq : q = p
      · subst hq
        rw [reads_view_self]
        exact le_sup_left.trans le_sup_left
      · exact (reads_view_of_ne hq).ge
    have hold : (l', j) ∈ m.acquired q → ∃ message' : Message Loc Val,
        (m.history l')[j]? = some message' ∧
          message'.view ≤ (m.reads p o l i message).view q := fun hmem => by
      obtain ⟨message', hmessage', hle⟩ := h.acquired q l' j hmem
      exact ⟨message', hmessage', hle.trans hmono⟩
    simp only [Memory.reads] at hmem
    split at hmem
    case isTrue ho =>
      by_cases hq : q = p
      · subst hq
        rw [Function.update_self] at hmem
        rcases List.mem_cons.mp hmem with heq | hmem
        · obtain ⟨rfl, rfl⟩ := Prod.mk.inj heq
          refine ⟨message, hmessage, ?_⟩
          rw [reads_view_self, if_pos ho]
          exact le_sup_right.trans le_sup_left
        · exact hold hmem
      · rw [Function.update_of_ne hq] at hmem
        exact hold hmem
    case isFalse => exact hold hmem

theorem Sound.writes (h : m.Sound) (hcarried : m.Bounded carried) :
    (m.writes p o l value carried).Sound := by
  have hgrows : ∀ l', m.history l' <+: (m.writes p o l value carried).history l' := grows_writes
  have hself : (m.history l).length < ((m.writes p o l value carried).history l).length := by
    simp [writes_history_self]
  have hsingle : (m.writes p o l value carried).Bounded (Pi.single l (m.history l).length) := by
    intro l'
    by_cases hl : l' = l
    · subst hl
      rwa [Pi.single_eq_same]
    · rw [Pi.single_eq_of_ne hl]
      exact (Bounded.bot h p).grows hgrows l'
  have hknown : (m.writes p o l value carried).Bounded
      (m.view p ⊔ Pi.single l (m.history l).length) :=
    ((h.parties p).grows hgrows).sup hsingle
  refine
    { own := fun l' i message hmessage => ?_
      messages := fun l' i message hmessage => ?_
      parties := fun q => ?_
      acquired := fun q l' j hmem => ?_ }
  · rcases writes_getElem? hmessage with hold | ⟨rfl, rfl, rfl⟩
    · exact h.own l' i message hold
    · have hc := hcarried l'
      have hp := h.parties p l'
      split <;> simp <;> omega
  · rcases writes_getElem? hmessage with hold | ⟨rfl, rfl, rfl⟩
    · exact (h.messages l' i message hold).grows hgrows
    · refine (hcarried.grows hgrows).sup ?_
      split
      · exact hknown
      · exact hsingle
  · by_cases hq : q = p
    · subst hq
      rw [writes_view_self]
      exact hknown
    · rw [writes_view_of_ne hq]
      exact (h.parties q).grows hgrows
  · obtain ⟨message, hmessage, hle⟩ := h.acquired q l' j hmem
    refine ⟨message, getElem?_of_grows (hgrows l') hmessage, hle.trans ?_⟩
    by_cases hq : q = p
    · subst hq
      rw [writes_view_self]
      exact le_sup_left
    · exact (writes_view_of_ne hq).ge

omit [DecidableEq Party] [DecidableEq Loc] in
theorem getElem?_of_last (h : (m.history l).getLast? = some message) :
    (m.history l)[(m.history l).length - 1]? = some message := by
  rw [← List.getLast?_eq_getElem?, h]

theorem Performs.sound (h : Performs m p i a m' next) (hs : m.Sound) : m'.Sound := by
  cases h with
  | skip => exact hs
  | read _ hmessage => exact hs.reads hmessage
  | write => exact hs.writes (Bounded.bot hs p)
  | update hlast _ =>
      have hmessage := getElem?_of_last hlast
      exact (hs.reads hmessage).writes (hs.messages _ _ _ hmessage)

omit [DecidableEq Party] in
/-- A message knows its own position. -/
theorem Sound.single_le (h : m.Sound) (hmessage : (m.history l)[i]? = some message) :
    Pi.single l i ≤ message.view := by
  intro l'
  by_cases hl : l' = l
  · subst hl
    rw [Pi.single_eq_same, h.own l' i message hmessage]
  · rw [Pi.single_eq_of_ne hl]
    exact Nat.zero_le _

/-! ## What all views have -/

/-- A property of the views of all parties and messages. -/
structure Every (Φ : View Loc → Prop) (m : Memory Party Loc Val) : Prop where
  parties : ∀ p, Φ (m.view p)
  messages : ∀ l (i : ℕ) (message : Message Loc Val), (m.history l)[i]? = some message →
    Φ message.view

theorem Every.reads {Φ : View Loc → Prop} (hsup : ∀ V W, Φ V → Φ W → Φ (V ⊔ W))
    (h : Every Φ m) (hs : m.Sound) (hmessage : (m.history l)[i]? = some message)
    (hrelaxed : o.acquires = false → Φ (m.view p ⊔ Pi.single l i)) :
    Every Φ (m.reads p o l i message) := by
  refine { parties := fun q => ?_, messages := h.messages }
  by_cases hq : q = p
  · subst hq
    rw [reads_view_self]
    cases ho : o.acquires with
    | true =>
        rw [if_pos rfl, sup_assoc, sup_of_le_left (hs.single_le hmessage)]
        exact hsup _ _ (h.parties q) (h.messages l i message hmessage)
    | false =>
        rw [if_neg (by simp), sup_bot_eq]
        exact hrelaxed ho
  · rw [reads_view_of_ne hq]
    exact h.parties q

theorem Every.writes {Φ : View Loc → Prop} (hsup : ∀ V W, Φ V → Φ W → Φ (V ⊔ W))
    (h : Every Φ m) (hcarried : Φ carried)
    (hknown : Φ (m.view p ⊔ Pi.single l (m.history l).length))
    (hrelaxed : o.releases = false → Φ (Pi.single l (m.history l).length)) :
    Every Φ (m.writes p o l value carried) := by
  refine { parties := fun q => ?_, messages := fun l' i message hmessage => ?_ }
  · by_cases hq : q = p
    · subst hq
      rw [writes_view_self]
      exact hknown
    · rw [writes_view_of_ne hq]
      exact h.parties q
  · rcases writes_getElem? hmessage with hold | ⟨rfl, rfl, rfl⟩
    · exact h.messages l' i message hold
    · refine hsup _ _ hcarried ?_
      cases ho : o.releases with
      | true => exact hknown
      | false => exact hrelaxed ho

/-! ## How knowledge travels -/

/-- The party has acquired a message that carries position `n` of the location. -/
def Heard (m : Memory Party Loc Val) (p : Party) (l : Loc) (n : ℕ) : Prop :=
  ∃ l', ∃ i : ℕ, ∃ message : Message Loc Val, (l', i) ∈ m.acquired p ∧
    (m.history l')[i]? = some message ∧ n ≤ message.view l

omit [DecidableEq Party] [DecidableEq Loc] in
theorem Heard.le (hs : m.Sound) (h : m.Heard p l n) : n ≤ m.view p l := by
  obtain ⟨l', i, message, hmem, hmessage, hle⟩ := h
  obtain ⟨message', hmessage', hview⟩ := hs.acquired p l' i hmem
  obtain rfl := Option.some.inj (hmessage.symm.trans hmessage')
  exact hle.trans (hview l)

theorem acquired_reads {x : Loc × ℕ} (h : x ∈ m.acquired q) :
    x ∈ (m.reads p o l i message).acquired q := by
  simp only [reads]
  split
  · by_cases hq : q = p
    · subst hq
      rw [Function.update_self]
      exact List.mem_cons_of_mem _ h
    · rwa [Function.update_of_ne hq]
  · exact h

theorem Performs.acquired {x : Loc × ℕ} (h : Performs m p i a m' next)
    (hx : x ∈ m.acquired q) : x ∈ m'.acquired q := by
  cases h with
  | skip | write => exact hx
  | read => exact acquired_reads hx
  | update =>
      rw [writes_acquired]
      exact acquired_reads hx

theorem Performs.acquires {k : Val → Program} (h : Performs m p i (.read o l k) m' next)
    (ho : o.acquires = true) : (l, i) ∈ m'.acquired p := by
  cases h with
  | read => simp [reads, ho]

theorem Heard.performs (h : m.Heard q l n) (hstep : Performs m p i a m' next) :
    m'.Heard q l n := by
  obtain ⟨l', j, message, hmem, hmessage, hle⟩ := h
  exact ⟨l', j, message, hstep.acquired hmem, getElem?_of_grows (hstep.grows l') hmessage, hle⟩

/-- Who reads with acquire learns what the messages it reads carry, and nothing else. -/
theorem heard_of_reads (hs : m.Sound) (hmessage : (m.history l)[i]? = some message)
    (ho : o.acquires = true) {l' : Loc} (h : n ≤ (m.reads p o l i message).view p l') :
    n ≤ m.view p l' ∨ (m.reads p o l i message).Heard p l' n := by
  by_cases hold : n ≤ m.view p l'
  · exact .inl hold
  · refine .inr ⟨l, i, message, ?_, hmessage, ?_⟩
    · simp [reads, ho]
    · rw [reads_view_self, if_pos ho] at h
      have hsingle : (Pi.single l i : View Loc) l' ≤ message.view l' := hs.single_le hmessage l'
      simp only [Pi.sup_apply] at h
      omega

theorem Heard.writes {l' : Loc} (h : m.Heard q l' n) :
    (m.writes p o l value carried).Heard q l' n := by
  obtain ⟨l'', j, message, hmem, hmessage, hle⟩ := h
  exact ⟨l'', j, message, hmem, getElem?_of_grows (grows_writes l'') hmessage, hle⟩

/-- A read that does not acquire teaches its party nothing about other locations. -/
theorem view_reads_of_ne {l' : Loc} (ho : o.acquires = false) (h : l' ≠ l) :
    (m.reads p o l i message).view p l' = m.view p l' := by
  rw [reads_view_self, if_neg (by simp [ho]), sup_bot_eq, Pi.sup_apply, Pi.single_eq_of_ne h]
  exact max_eq_left (Nat.zero_le _)

/-- A write teaches its party nothing about other locations. -/
theorem view_writes_of_ne {l' : Loc} (h : l' ≠ l) :
    (m.writes p o l value carried).view p l' = m.view p l' := by
  rw [writes_view_self, Pi.sup_apply, Pi.single_eq_of_ne h]
  exact max_eq_left (Nat.zero_le _)

/-- What an access teaches its party of a location that it does not write. -/
theorem Performs.heard (h : Performs m p i a m' next) (hs : m.Sound) {l' : Loc}
    (hwritten : a.written? ≠ some l') (hread : ∀ o l k, a = .read o l k → o.acquires = true)
    (hn : n ≤ m'.view p l') : n ≤ m.view p l' ∨ m'.Heard p l' n := by
  cases h with
  | skip => exact .inl hn
  | read _ hmessage => exact heard_of_reads hs hmessage (hread _ _ _ rfl) hn
  | write =>
      rw [view_writes_of_ne fun heq => hwritten (congrArg some heq.symm)] at hn
      exact .inl hn
  | @update o l f k message value hlast _ =>
      have hne : l' ≠ l := fun heq => hwritten (congrArg some heq.symm)
      rw [view_writes_of_ne hne] at hn
      cases ho : o.acquires with
      | true =>
          exact (heard_of_reads hs (getElem?_of_last hlast) ho hn).imp_right Heard.writes
      | false =>
          rw [view_reads_of_ne ho hne] at hn
          exact .inl hn

/-! ## Release sequences -/

/-- Later messages carry what earlier ones carry. -/
def Rising (m : Memory Party Loc Val) (l : Loc) : Prop :=
  ∀ (i j : ℕ) (message message' : Message Loc Val), i ≤ j → (m.history l)[i]? = some message →
    (m.history l)[j]? = some message' → message.view ≤ message'.view

omit [DecidableEq Party] [DecidableEq Loc] in
theorem Rising.congr (h : Rising m l) (heq : m'.history l = m.history l) : Rising m' l :=
  fun i j message message' hij hi hj => h i j message message' hij (heq ▸ hi) (heq ▸ hj)

/-- An update goes on with what the last message carries. -/
theorem Rising.writes (h : Rising m l) (hcarried : ∀ (i : ℕ) (message : Message Loc Val),
    (m.history l)[i]? = some message → message.view ≤ carried) :
    Rising (m.writes p o l value carried) l := by
  intro i j earlier later hij hi hj
  rcases writes_getElem? hi with hi | ⟨-, rfl, rfl⟩
  · rcases writes_getElem? hj with hj | ⟨-, rfl, rfl⟩
    · exact h i j earlier later hij hi hj
    · exact (hcarried i earlier hi).trans le_sup_left
  · rcases writes_getElem? hj with hj | ⟨-, rfl, rfl⟩
    · have hlt := (List.getElem?_eq_some_iff.mp hj).1
      omega
    · exact le_rfl

/-- Where a location is only ever updated, its messages are one release sequence. -/
theorem Performs.rising (hstep : Performs m p i a m' next) (h : Rising m l)
    (hupdate : ∀ o value next, a ≠ .write o l value next) : Rising m' l := by
  cases hstep with
  | skip | read => exact h.congr rfl
  | @write o l' =>
      have hne : l ≠ l' := by
        rintro rfl
        exact hupdate _ _ _ rfl
      exact h.congr (writes_history_of_ne hne)
  | @update o l' _ _ last _ hlast =>
      by_cases hl : l = l'
      · subst hl
        have hreads : Rising (m.reads p o l ((m.history l).length - 1) last) l := h.congr rfl
        apply hreads.writes
        intro j message hmessage
        have hlt := (List.getElem?_eq_some_iff.mp hmessage).1
        exact h j _ message last (Nat.le_sub_one_of_lt hlt) hmessage (getElem?_of_last hlast)
      · exact h.congr (writes_history_of_ne (m := m.reads ..) hl)

end Memory

end Unlog.Library
