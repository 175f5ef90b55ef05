import Unlog.Handoff.Exclusive
import Unlog.Library.LowestBit

/-! # What is left of a pass

Every pass goes through the two single-threaded producers and then through the registries,
following ready bits or, in a flush, every slot. -/

namespace Unlog.Handoff

open Library

/-- The place of a producer in the order of a pass. -/
def ProducerId.rank : ProducerId → ℕ
  | .single .normal => 0
  | .single .huge => 1
  | .pooled .normal _ => 2
  | .pooled .huge _ => 3

def ProducerId.index : ProducerId → ℕ
  | .single _ => 0
  | .pooled _ index => index

def Cursor.rank : Cursor → ℕ
  | .single .normal => 0
  | .single .huge => 1
  | .count .normal | .word .normal _ _ | .bits .normal _ _ _ | .slot .normal _ _ => 2
  | .count .huge | .word .huge _ _ | .bits .huge _ _ _ | .slot .huge _ _ => 3
  | .done => 4

/-- The cursor has still to come to an index of the registry it is in. -/
def Cursor.Within (i : ℕ) : Cursor → Prop
  | .single _ | .count _ => True
  | .word _ words index => index ≤ i / 64 ∧ i / 64 < words
  | .bits _ words index _ => index < i / 64 ∧ i / 64 < words
  | .slot _ limit index => index ≤ i ∧ i < limit
  | .done => False

/-- The pass has still to come to the producer, or to the word of its ready bit. -/
def Cursor.Ahead (cursor : Cursor) (p : ProducerId) : Prop :=
  cursor.rank < p.rank ∨ cursor.rank = p.rank ∧ cursor.Within p.index

/-- The pass has taken the producer's ready bit and not yet followed it. -/
def Cursor.due : Cursor → ProducerId → Bool
  | .bits pages _ index pending, .pooled pages' i =>
    pages == pages' && i / 64 == index && pending.getLsbD (i % 64)
  | _, _ => false

variable {p : ProducerId} {pages : Pages} {i words count index : ℕ} {pending : BitVec 64}

/-! ## Steps of a cursor -/

section Ahead

theorem ahead_first (p : ProducerId) : Cursor.first.Ahead p := by
  rcases p with (_ | _) | ⟨_ | _, i⟩ <;>
    simp [Cursor.Ahead, Cursor.first, Cursor.rank, ProducerId.rank, Cursor.Within]

theorem not_ahead_done (p : ProducerId) : ¬ Cursor.done.Ahead p := by
  rcases p with (_ | _) | ⟨_ | _, i⟩ <;> simp [Cursor.Ahead, Cursor.rank, ProducerId.rank]

theorem ahead_afterSingle (h : (Cursor.single pages).Ahead p) (hp : p ≠ .single pages) :
    (Cursor.afterSingle pages).Ahead p := by
  rcases p with (_ | _) | ⟨_ | _, i⟩ <;> cases pages <;>
    simp_all [Cursor.Ahead, Cursor.rank, ProducerId.rank, Cursor.Within, Cursor.afterSingle]

theorem ahead_words (h : (Cursor.count pages).Ahead p)
    (hi : ∀ i, p = .pooled pages i → i < count) :
    (Cursor.word pages ((count + 63) / 64) 0).Ahead p := by
  rcases p with (_ | _) | ⟨_ | _, i⟩ <;> cases pages <;>
    simp_all [Cursor.Ahead, Cursor.rank, ProducerId.rank, Cursor.Within, ProducerId.index]
  all_goals omega

theorem ahead_slots (h : (Cursor.count pages).Ahead p)
    (hi : ∀ i, p = .pooled pages i → i < count) : (Cursor.slot pages count 0).Ahead p := by
  rcases p with (_ | _) | ⟨_ | _, i⟩ <;> cases pages <;>
    simp_all [Cursor.Ahead, Cursor.rank, ProducerId.rank, Cursor.Within, ProducerId.index]

theorem ahead_bits (h : (Cursor.word pages words index).Ahead p)
    (hi : ∀ i, p = .pooled pages i → i / 64 ≠ index) :
    (Cursor.bits pages words index pending).Ahead p := by
  rcases p with (_ | _) | ⟨_ | _, i⟩ <;> cases pages <;>
    simp_all [Cursor.Ahead, Cursor.rank, ProducerId.rank, Cursor.Within, ProducerId.index]
  all_goals omega

theorem ahead_dropBit {pending' : BitVec 64}
    (h : (Cursor.bits pages words index pending).Ahead p) :
    (Cursor.bits pages words index pending').Ahead p := by
  cases pages <;> exact h

theorem ahead_nextWord (h : (Cursor.bits pages words index pending).Ahead p) :
    (Cursor.word pages words (index + 1)).Ahead p := by
  rcases p with (_ | _) | ⟨_ | _, i⟩ <;> cases pages <;>
    simp_all [Cursor.Ahead, Cursor.rank, ProducerId.rank, Cursor.Within, ProducerId.index]

theorem ahead_nextSlot (h : (Cursor.slot pages count index).Ahead p)
    (hp : p ≠ .pooled pages index) : (Cursor.slot pages count (index + 1)).Ahead p := by
  rcases p with (_ | _) | ⟨_ | _, i⟩ <;> cases pages <;>
    simp_all [Cursor.Ahead, Cursor.rank, ProducerId.rank, Cursor.Within, ProducerId.index]
  all_goals omega

theorem ahead_afterWords (h : (Cursor.word pages words index).Ahead p) (hle : words ≤ index) :
    (Cursor.afterRegistry pages).Ahead p := by
  rcases p with (_ | _) | ⟨_ | _, i⟩ <;> cases pages <;>
    simp_all [Cursor.Ahead, Cursor.rank, ProducerId.rank, Cursor.Within, ProducerId.index,
      Cursor.afterRegistry]
  all_goals omega

theorem ahead_afterSlots (h : (Cursor.slot pages count index).Ahead p) (hle : count ≤ index) :
    (Cursor.afterRegistry pages).Ahead p := by
  rcases p with (_ | _) | ⟨_ | _, i⟩ <;> cases pages <;>
    simp_all [Cursor.Ahead, Cursor.rank, ProducerId.rank, Cursor.Within, ProducerId.index,
      Cursor.afterRegistry]
  all_goals omega

end Ahead

/-! ## Bits taken and not yet followed -/

section Due

@[simp] theorem due_first : Cursor.first.due p = false := rfl

@[simp] theorem due_afterSingle : (Cursor.afterSingle pages).due p = false := by
  cases pages <;> rfl

@[simp] theorem due_afterRegistry : (Cursor.afterRegistry pages).due p = false := by
  cases pages <;> rfl

@[simp] theorem due_single (p : ProducerId) : (Cursor.single pages).due p = false := rfl

@[simp] theorem due_count (p : ProducerId) : (Cursor.count pages).due p = false := rfl

@[simp] theorem due_word : (Cursor.word pages words index).due p = false := rfl

@[simp] theorem due_slot : (Cursor.slot pages count index).due p = false := rfl

@[simp] theorem due_done (p : ProducerId) : Cursor.done.due p = false := rfl

theorem due_bits : (Cursor.bits pages words index pending).due (.pooled pages i) =
    (i / 64 == index && pending.getLsbD (i % 64)) := by
  simp [Cursor.due]

theorem due_bits_other (hp : ∀ i, p = .pooled pages i → i / 64 ≠ index) :
    (Cursor.bits pages words index pending).due p = false := by
  cases p with
  | single pages' => rfl
  | pooled pages' i =>
      by_cases hpages : pages = pages'
      · subst hpages
        simp [due_bits, hp i rfl]
      · simp [Cursor.due, hpages]

theorem due_bits_zero : (Cursor.bits pages words index 0).due p = false := by
  cases p <;> simp [Cursor.due]

theorem ctz_lt (hzero : pending ≠ 0) : pending.ctz.toNat < 64 :=
  BitVec.ctz_lt_iff_ne_zero.mpr hzero

/-- Following the lowest bit leaves the other ones. -/
theorem due_bits_next (hzero : pending ≠ 0) :
    (Cursor.bits pages words index (pending &&& (pending - 1))).due p =
      ((Cursor.bits pages words index pending).due p &&
        decide (p ≠ .pooled pages (index * 64 + pending.ctz.toNat))) := by
  cases p with
  | single pages' => rfl
  | pooled pages' i =>
      have hctz := ctz_lt hzero
      have hiff : i / 64 = index →
          (i % 64 ≠ pending.ctz.toNat ↔ i ≠ index * 64 + pending.ctz.toNat) := by omega
      simp only [Cursor.due, getLsbD_and_sub_one hzero]
      by_cases hp : pages = pages'
      · by_cases hi : i / 64 = index
        · simp [hp, hi, hiff hi]
        · have hfalse : (i / 64 == index) = false := by simpa using hi
          rw [hfalse, Bool.and_false, Bool.false_and, Bool.false_and, Bool.false_and]
      · have hfalse : (pages == pages') = false := by simpa using hp
        rw [hfalse, Bool.false_and, Bool.false_and, Bool.false_and, Bool.false_and]

theorem due_bits_lowest (hzero : pending ≠ 0) : (Cursor.bits pages words index pending).due
    (.pooled pages (index * 64 + pending.ctz.toNat)) = true := by
  have hctz := ctz_lt hzero
  have hdiv : (index * 64 + pending.ctz.toNat) / 64 = index := by omega
  have hmod : (index * 64 + pending.ctz.toNat) % 64 = pending.ctz.toNat := by omega
  rw [due_bits, hdiv, hmod, BitVec.getLsbD_true_ctz_of_ne_zero hzero]
  simp

end Due

end Unlog.Handoff
