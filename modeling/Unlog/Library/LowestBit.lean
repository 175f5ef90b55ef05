import Mathlib

/-! Walking the set bits of a machine word from the lowest one up. -/

namespace Unlog.Library

section Word

variable {w : ℕ} {x : BitVec w}

theorem mod_two_pow_ctz (x : BitVec w) : x.toNat % 2 ^ x.ctz.toNat = 0 := by
  refine Nat.eq_of_testBit_eq fun i => ?_
  rw [Nat.testBit_mod_two_pow, Nat.zero_testBit]
  by_cases hi : i < x.ctz.toNat
  · have hfalse := BitVec.getLsbD_false_of_lt_ctz hi
    rw [BitVec.getLsbD] at hfalse
    simp [hfalse]
  · simp [hi]

/-- Bits of an odd number and of its predecessor differ only at position zero. -/
theorem testBit_pred_of_odd {a : ℕ} (h : a.testBit 0 = true) (i : ℕ) :
    (a - 1).testBit i = (a.testBit i && decide (i ≠ 0)) := by
  have hodd : a % 2 = 1 := by simpa [Nat.testBit_zero] using h
  cases i with
  | zero =>
      have hpred : (a - 1) % 2 = 0 := by omega
      simp [Nat.testBit_zero, hpred]
  | succ i =>
      have hhalf : (a - 1) / 2 = a / 2 := by omega
      simp [Nat.testBit_succ, hhalf]

theorem toNat_sub_one (hx : x ≠ 0) : (x - 1).toNat = x.toNat - 1 := by
  have hpos : 0 < x.toNat := by
    refine Nat.pos_of_ne_zero fun hzero => hx ?_
    exact BitVec.eq_of_toNat_eq (by simpa using hzero)
  have hlt := x.isLt
  rw [BitVec.toNat_sub]
  by_cases hw : w = 0
  · subst hw
    omega
  · have hone : (1 : BitVec w).toNat = 1 := by
      simp [BitVec.toNat_ofNat, Nat.mod_eq_of_lt (Nat.one_lt_two_pow hw)]
    have hpow : 1 < 2 ^ w := Nat.one_lt_two_pow hw
    have hshift : 2 ^ w - 1 + x.toNat = 2 ^ w + (x.toNat - 1) := by omega
    rw [hone, hshift, Nat.add_mod_left, Nat.mod_eq_of_lt (by omega)]

/-- `x & (x - 1)` drops the lowest set bit and nothing else. -/
theorem getLsbD_and_sub_one (hx : x ≠ 0) (i : ℕ) :
    (x &&& (x - 1)).getLsbD i = (x.getLsbD i && decide (i ≠ x.ctz.toNat)) := by
  have hset : x.getLsbD x.ctz.toNat = true := BitVec.getLsbD_true_ctz_of_ne_zero hx
  have hsplit : 2 ^ x.ctz.toNat * (x.toNat / 2 ^ x.ctz.toNat) = x.toNat := by
    have hdiv := Nat.div_add_mod x.toNat (2 ^ x.ctz.toNat)
    rwa [mod_two_pow_ctz, Nat.add_zero] at hdiv
  have hodd : (x.toNat / 2 ^ x.ctz.toNat).testBit 0 = true := by
    rw [Nat.testBit_div_two_pow, Nat.zero_add]
    exact hset
  have hpos : 0 < x.toNat / 2 ^ x.ctz.toNat := by
    refine Nat.pos_of_ne_zero fun hzero => ?_
    simp [hzero] at hodd
  have hpred : (x - 1).toNat =
      2 ^ x.ctz.toNat * (x.toNat / 2 ^ x.ctz.toNat - 1) + (2 ^ x.ctz.toNat - 1) := by
    have hle := Nat.le_mul_of_pos_right (2 ^ x.ctz.toNat) hpos
    have hpow := Nat.two_pow_pos x.ctz.toNat
    rw [toNat_sub_one hx, Nat.mul_sub, Nat.mul_one, hsplit]
    omega
  rw [BitVec.getLsbD_and]
  by_cases hi : i < x.ctz.toNat
  · rw [BitVec.getLsbD_false_of_lt_ctz hi]
    simp
  · have hbit : (x - 1).getLsbD i =
        (x.toNat / 2 ^ x.ctz.toNat - 1).testBit (i - x.ctz.toNat) := by
      rw [BitVec.getLsbD, hpred, Nat.testBit_two_pow_mul_add _ (by
        have := Nat.two_pow_pos x.ctz.toNat
        omega), if_neg hi]
    have hsame : (x.toNat / 2 ^ x.ctz.toNat).testBit (i - x.ctz.toNat) = x.getLsbD i := by
      rw [Nat.testBit_div_two_pow, BitVec.getLsbD]
      congr 1
      omega
    rw [hbit, testBit_pred_of_odd hodd, hsame]
    have hzero : i - x.ctz.toNat ≠ 0 ↔ i ≠ x.ctz.toNat := by omega
    simp [hzero]

/-- The number of set bits. -/
def popcount (x : BitVec w) : ℕ := ((Finset.range w).filter fun i => x.getLsbD i = true).card

theorem popcount_le (x : BitVec w) : popcount x ≤ w :=
  (Finset.card_filter_le _ _).trans_eq (Finset.card_range w)

theorem popcount_and_sub_one (hx : x ≠ 0) : popcount (x &&& (x - 1)) + 1 = popcount x := by
  have hset : x.getLsbD x.ctz.toNat = true := BitVec.getLsbD_true_ctz_of_ne_zero hx
  have hmem : x.ctz.toNat ∈ (Finset.range w).filter fun i => x.getLsbD i = true := by
    rw [Finset.mem_filter, Finset.mem_range]
    exact ⟨BitVec.lt_of_getLsbD hset, hset⟩
  have herase : ((Finset.range w).filter fun i => (x &&& (x - 1)).getLsbD i = true) =
      ((Finset.range w).filter fun i => x.getLsbD i = true).erase x.ctz.toNat := by
    apply Finset.ext
    intro i
    rw [Finset.mem_erase, Finset.mem_filter, Finset.mem_filter, getLsbD_and_sub_one hx]
    simp only [Bool.and_eq_true, decide_eq_true_eq]
    tauto
  rw [popcount, herase]
  exact Finset.card_erase_add_one hmem

end Word

end Unlog.Library
