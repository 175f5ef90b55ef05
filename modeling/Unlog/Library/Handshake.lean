import Mathlib

/-! # A notification handshake between writers and one consumer

Writers append to a queue, and only the writer that turns `flag` on raises `signal`. The
consumer takes the signal, empties the queue, turns `flag` off and looks again. -/

namespace Unlog.Library

/-- Where one writer stands: between its append and its exchange of the flag, between a won
exchange and the signal, or between its last act and the signal. -/
inductive Phase where
  | rest
  | written (n : ℕ)
  | marked
  | retiring
  deriving DecidableEq, Repr

/-- Where the consumer stands: `early` until it has turned the flag off, `late` until it has
looked again, `remarked` when it turned the flag back on, `leaving` when all was empty. -/
inductive Visit where
  | away | due | early | late | remarked | leaving
  deriving DecidableEq, Repr

structure Cell (T : Type) where
  tail : ℕ
  head : ℕ
  flag : Bool
  signal : Prop
  retired : Bool
  phase : T → Phase
  visit : Visit

namespace Cell

variable {T : Type} [DecidableEq T]

/-- One atomic act of a writer or of the consumer. -/
inductive Step : Cell T → Cell T → Prop
  | raise (c : Cell T) (q : Prop) (h : c.signal → q) : Step c { c with signal := q }
  | append (c : Cell T) (t : T) (h : c.phase t = .rest) :
      Step c { c with
        tail := c.tail + 1
        phase := Function.update c.phase t (.written c.tail) }
  | mark (c : Cell T) (t : T) (n : ℕ) (h : c.phase t = .written n) (hf : c.flag = false)
      (hr : c.retired = false) :
      Step c { c with flag := true, phase := Function.update c.phase t .marked }
  | markSignal (c : Cell T) (t : T) (n : ℕ) (h : c.phase t = .written n) (hf : c.flag = false) :
      Step c { c with
        flag := true, signal := True, phase := Function.update c.phase t .rest }
  | skip (c : Cell T) (t : T) (n : ℕ) (h : c.phase t = .written n) (hf : c.flag = true) :
      Step c { c with phase := Function.update c.phase t .rest }
  | announce (c : Cell T) (t : T) (h : c.phase t = .marked) :
      Step c { c with signal := True, phase := Function.update c.phase t .rest }
  | retire (c : Cell T) (t : T) (h : c.phase t = .rest)
      (hm : ∀ other, c.phase other ≠ .marked) :
      Step c { c with retired := true, phase := Function.update c.phase t .retiring }
  | announceRetired (c : Cell T) (t : T) (h : c.phase t = .retiring) :
      Step c { c with signal := True, phase := Function.update c.phase t .rest }
  | reclaim (c : Cell T) : Step c { c with flag := false }
  | take (c : Cell T) (q : Prop) (h : c.visit = .away) :
      Step c { c with signal := q, visit := .due }
  | begin (c : Cell T) (q : Prop) (h : c.visit = .away ∨ c.visit = .due) :
      Step c { c with signal := q, visit := .early }
  | consume (c : Cell T) (h : c.visit = .early) (hn : c.head < c.tail) :
      Step c { c with head := c.head + 1 }
  | postpone (c : Cell T) (h : c.visit = .early) :
      Step c { c with signal := True, visit := .away }
  | clear (c : Cell T) (h : c.visit = .early) : Step c { c with flag := false, visit := .late }
  | drained (c : Cell T) (h : c.visit = .late) (he : c.head = c.tail) :
      Step c { c with visit := .leaving }
  | remark (c : Cell T) (h : c.visit = .late) (hf : c.flag = false) :
      Step c { c with flag := true, visit := .remarked }
  | lose (c : Cell T) (h : c.visit = .late) (hf : c.flag = true) :
      Step c { c with visit := .away }
  | repost (c : Cell T) (h : c.visit = .remarked) :
      Step c { c with signal := True, visit := .away }
  | leave (c : Cell T) (h : c.visit = .leaving) (hr : c.retired = false) :
      Step c { c with visit := .away }
  | free (c : Cell T) (h : c.visit = .leaving) :
      Step c { c with retired := false, visit := .away }

/-- The same cell, its signal at most raised. -/
structure Rises (c c' : Cell T) : Prop where
  tail : c'.tail = c.tail
  head : c'.head = c.head
  flag : c'.flag = c.flag
  retired : c'.retired = c.retired
  phase : c'.phase = c.phase
  visit : c'.visit = c.visit
  signal : c.signal → c'.signal

theorem Rises.step {c c' : Cell T} (h : Rises c c') : Step c c' := by
  obtain ⟨htail, hhead, hflag, hretired, hphase, hvisit, hsignal⟩ := h
  have hraise := Step.raise c c'.signal hsignal
  rw [← htail, ← hhead, ← hflag, ← hretired, ← hphase, ← hvisit] at hraise
  exact hraise

/-- Nothing that needs the consumer goes unnoticed: a flag that is on, an element of the queue
and a retirement are each announced, about to be announced, or in front of the consumer. -/
structure Inv (c : Cell T) : Prop where
  ordered : c.head ≤ c.tail
  flagged : c.flag = true →
    c.signal ∨ (∃ t, c.phase t = .marked) ∨ c.visit = .due ∨ c.visit = .early ∨
      c.visit = .remarked
  covered : ∀ n, c.head ≤ n → n < c.tail →
    (∃ t, c.phase t = .written n) ∨ c.signal ∨ (∃ t, c.phase t = .marked) ∨ c.visit = .due ∨
      c.visit = .early ∨ c.visit = .late ∨ c.visit = .remarked
  noticed : c.retired = true → c.signal ∨ (∃ t, c.phase t = .retiring) ∨ c.visit ≠ .away
  quiet : c.retired = true → ∀ t, c.phase t ≠ .marked

section Update

variable {phase : T → Phase} {t : T} {p q : Phase}

/-- A phase that some writer is in survives the move of a writer in another phase. -/
theorem exists_update (hq : phase t ≠ q) (h : ∃ other, phase other = q) :
    ∃ other, Function.update phase t p other = q := by
  obtain ⟨other, hother⟩ := h
  have hne : other ≠ t := fun heq => hq (heq ▸ hother)
  exact ⟨other, by rw [Function.update_of_ne hne, hother]⟩

theorem exists_update_self : ∃ other, Function.update phase t p other = p :=
  ⟨t, Function.update_self ..⟩

end Update

/-! ## The invariant along the steps -/

namespace Inv

variable {c c' : Cell T} {t : T} {n : ℕ}

omit [DecidableEq T] in
theorem raise (h : Inv c) {q : Prop} (hq : c.signal → q) : Inv { c with signal := q } where
  ordered := h.ordered
  flagged hf := (h.flagged hf).imp_left hq
  covered n hn hlt := (h.covered n hn hlt).imp_right (Or.imp_left hq)
  noticed hr := (h.noticed hr).imp_left hq
  quiet := h.quiet

theorem quiet_update (h : Inv c) {p : Phase} (hp : p ≠ .marked) (hr : c.retired = true)
    (other : T) : Function.update c.phase t p other ≠ .marked := by
  by_cases heq : other = t
  · subst heq
    rwa [Function.update_self]
  · rw [Function.update_of_ne heq]
    exact h.quiet hr other

theorem append (h : Inv c) (ht : c.phase t = .rest) :
    Inv { c with
      tail := c.tail + 1, phase := Function.update c.phase t (.written c.tail) } where
  ordered := Nat.le_succ_of_le h.ordered
  flagged hf := (h.flagged hf).imp_right (Or.imp_left (exists_update (by simp [ht])))
  covered n hn hlt := by
    rcases Nat.lt_succ_iff_lt_or_eq.mp hlt with hlt | rfl
    · rcases h.covered n hn hlt with hw | hs | hm | hv
      · exact .inl (exists_update (by simp [ht]) hw)
      · exact .inr (.inl hs)
      · exact .inr (.inr (.inl (exists_update (by simp [ht]) hm)))
      · exact .inr (.inr (.inr hv))
    · exact .inl exists_update_self
  noticed hr := (h.noticed hr).imp_right (Or.imp_left (exists_update (by simp [ht])))
  quiet hr := h.quiet_update (by simp) hr

theorem mark (h : Inv c) (hr : c.retired = false) :
    Inv { c with flag := true, phase := Function.update c.phase t .marked } where
  ordered := h.ordered
  flagged _ := .inr (.inl exists_update_self)
  covered _ _ _ := .inr (.inr (.inl exists_update_self))
  noticed hretired := absurd hretired (by simp [hr])
  quiet hretired := absurd hretired (by simp [hr])

/-- A writer may forget its element once the flag is on: whoever turned it on speaks for
all. -/
theorem skip (h : Inv c) (ht : c.phase t = .written n) (hf : c.flag = true) :
    Inv { c with phase := Function.update c.phase t .rest } where
  ordered := h.ordered
  flagged hflag := (h.flagged hflag).imp_right (Or.imp_left (exists_update (by simp [ht])))
  covered m hm hlt := by
    have hmarked : (∃ other, c.phase other = .marked) →
        ∃ other, Function.update c.phase t .rest other = .marked := exists_update (by simp [ht])
    rcases h.covered m hm hlt with ⟨other, hother⟩ | hs | hmark | hv
    · by_cases heq : other = t
      · rcases h.flagged hf with hs | hmark | hd | he | hr
        · exact .inr (.inl hs)
        · exact .inr (.inr (.inl (hmarked hmark)))
        · exact .inr (.inr (.inr (.inl hd)))
        · exact .inr (.inr (.inr (.inr (.inl he))))
        · exact .inr (.inr (.inr (.inr (.inr (.inr hr)))))
      · exact .inl ⟨other, (Function.update_of_ne heq ..).trans hother⟩
    · exact .inr (.inl hs)
    · exact .inr (.inr (.inl (hmarked hmark)))
    · exact .inr (.inr (.inr hv))
  noticed hr := (h.noticed hr).imp_right (Or.imp_left (exists_update (by simp [ht])))
  quiet hr := h.quiet_update (by simp) hr

/-- A raised signal answers for everything. -/
theorem signalled (h : Inv c) (flag : Bool) :
    Inv { c with flag := flag, signal := True, phase := Function.update c.phase t .rest } where
  ordered := h.ordered
  flagged _ := .inl trivial
  covered _ _ _ := .inr (.inl trivial)
  noticed _ := .inl trivial
  quiet hr := h.quiet_update (by simp) hr

theorem retire (h : Inv c) (ht : c.phase t = .rest) (hmarked : ∀ other, c.phase other ≠ .marked) :
    Inv { c with retired := true, phase := Function.update c.phase t .retiring } where
  ordered := h.ordered
  flagged hf := (h.flagged hf).imp_right (Or.imp_left (exists_update (by simp [ht])))
  covered n hn hlt := by
    rcases h.covered n hn hlt with hw | hs | hm | hv
    · exact .inl (exists_update (by simp [ht]) hw)
    · exact .inr (.inl hs)
    · exact .inr (.inr (.inl (exists_update (by simp [ht]) hm)))
    · exact .inr (.inr (.inr hv))
  noticed _ := .inr (.inl exists_update_self)
  quiet _ other := by
    by_cases heq : other = t
    · subst heq
      simp
    · simpa [Function.update_of_ne heq] using hmarked other

omit [DecidableEq T] in
/-- A consumer that still has to look again answers for everything but the elements it will
not see. -/
theorem facing (h : Inv c) {head : ℕ} (hle : head ≤ c.tail) (q : Prop) {v : Visit}
    (hv : v = .due ∨ v = .early) : Inv { c with head := head, signal := q, visit := v } where
  ordered := hle
  flagged _ := by grind
  covered _ _ _ := by grind
  noticed _ := by grind
  quiet := h.quiet

omit [DecidableEq T] in
theorem posted (h : Inv c) : Inv { c with signal := True, visit := .away } where
  ordered := h.ordered
  flagged _ := .inl trivial
  covered _ _ _ := .inr (.inl trivial)
  noticed _ := .inl trivial
  quiet := h.quiet

/-- The invariant of the handshake. -/
theorem step (h : Inv c) (hstep : Step c c') : Inv c' := by
  cases hstep with
  | raise q hq => exact h.raise hq
  | append t ht => exact h.append ht
  | mark t n ht hf hr => exact h.mark hr
  | markSignal t n ht hf => exact h.signalled true
  | skip t n ht hf => exact h.skip ht hf
  | announce t ht => exact h.signalled c.flag
  | retire t ht hmarked => exact h.retire ht hmarked
  | announceRetired t ht => exact h.signalled c.flag
  | reclaim => exact { h with flagged := nofun }
  | take q hv => exact h.facing h.ordered q (.inl rfl)
  | begin q hv => exact h.facing h.ordered q (.inr rfl)
  | consume hv hn =>
      have hfacing := h.facing (Nat.succ_le_of_lt hn) c.signal (.inr hv)
      exact hfacing
  | postpone hv => exact h.posted
  | clear hv =>
      refine ⟨h.ordered, nofun, fun _ _ _ => ?_, fun _ => ?_, h.quiet⟩
      · exact .inr (.inr (.inr (.inr (.inr (.inl rfl)))))
      · exact .inr (.inr nofun)
  | drained hv he =>
      refine ⟨h.ordered, fun hf => ?_, fun n hn hlt => ?_, fun _ => ?_, h.quiet⟩
      · have hflagged := h.flagged hf
        simp only [hv, reduceCtorEq, or_false] at hflagged
        exact hflagged.imp_right .inl
      · exact absurd (he ▸ hn) (Nat.not_le_of_lt hlt)
      · exact .inr (.inr nofun)
  | remark hv hf =>
      refine ⟨h.ordered, fun _ => ?_, fun _ _ _ => ?_, fun _ => ?_, h.quiet⟩
      · exact .inr (.inr (.inr (.inr rfl)))
      · exact .inr (.inr (.inr (.inr (.inr (.inr rfl)))))
      · exact .inr (.inr nofun)
  | lose hv hf =>
      -- the flag is on, so its raiser has signalled or is about to
      have hspoken : c.signal ∨ ∃ t, c.phase t = .marked := by
        simpa [hv] using h.flagged hf
      refine ⟨h.ordered, fun _ => ?_, fun _ _ _ => ?_, fun hr => ?_, h.quiet⟩
      · exact hspoken.imp_right .inl
      · exact .inr (hspoken.imp_right .inl)
      · rcases hspoken with hs | ⟨t, ht⟩
        · exact .inl hs
        · exact absurd ht (h.quiet hr t)
  | repost hv => exact h.posted
  | leave hv hr =>
      refine ⟨h.ordered, fun hf => ?_, fun n hn hlt => ?_, fun hretired => ?_, h.quiet⟩
      · have hflagged := h.flagged hf
        simp only [hv, reduceCtorEq, or_false] at hflagged
        exact hflagged.imp_right .inl
      · have hcovered := h.covered n hn hlt
        simp only [hv, reduceCtorEq, or_false] at hcovered
        exact hcovered.imp_right (Or.imp_right .inl)
      · exact absurd hretired (by simp [hr])
  | free hv =>
      refine ⟨h.ordered, fun hf => ?_, fun n hn hlt => ?_, nofun, nofun⟩
      · have hflagged := h.flagged hf
        simp only [hv, reduceCtorEq, or_false] at hflagged
        exact hflagged.imp_right .inl
      · have hcovered := h.covered n hn hlt
        simp only [hv, reduceCtorEq, or_false] at hcovered
        exact hcovered.imp_right (Or.imp_right .inl)

theorem steps (h : Inv c) (hsteps : Relation.ReflTransGen Step c c') : Inv c' := by
  induction hsteps with
  | refl => exact h
  | tail _ hstep ih => exact ih.step hstep

omit [DecidableEq T] in
/-- With every writer at rest, no signal and the consumer away, nothing is left. -/
theorem settled (h : Inv c) (hphase : ∀ t, c.phase t = .rest) (hsignal : ¬ c.signal)
    (hvisit : c.visit = .away) : c.head = c.tail ∧ c.flag = false ∧ c.retired = false := by
  refine ⟨Nat.le_antisymm h.ordered (Nat.le_of_not_lt fun hlt => ?_), ?_, ?_⟩
  · have hcovered := h.covered c.head (Nat.le_refl _) hlt
    simp [hphase, hsignal, hvisit] at hcovered
  · by_contra hflag
    have hflagged := h.flagged (by simpa using hflag)
    simp [hphase, hsignal, hvisit] at hflagged
  · by_contra hretired
    have hnoticed := h.noticed (by simpa using hretired)
    simp [hphase, hsignal, hvisit] at hnoticed

omit [DecidableEq T] in
/-- A cell that was never used. -/
theorem unused (htail : c.tail = 0) (hhead : c.head = 0) (hflag : c.flag = false)
    (hretired : c.retired = false) : Inv c where
  ordered := Nat.le_of_eq (hhead.trans htail.symm)
  flagged hf := absurd hf (by simp [hflag])
  covered n _ hlt := absurd hlt (by simp [htail])
  noticed hr := absurd hr (by simp [hretired])
  quiet hr := absurd hr (by simp [hretired])

end Inv

end Cell

end Unlog.Library
