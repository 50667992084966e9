import TrapEmulation.BitManip.Logic
import TrapEmulation.Proofs.Words

/-!
# The lowest set bit

A word other than zero is `2 ^ (t + 1) * q + 2 ^ t` for the place `t` of its lowest set bit.
Subtracting one changes only the low part, from `2 ^ t` to `2 ^ t - 1`, so the three operations on
the lowest set bit are sums of powers of two.
-/

namespace TrapEmulation.BitManip

variable {w : Nat}

/-- Place `t` holds the lowest set bit of `x`. -/
structure IsLowestBit (x : BitVec w) (t : Nat) : Prop where
  lt_width : t < w
  set : x.getLsbD t = true
  clear_below : ∀ i < t, x.getLsbD i = false

/-- The bits above the lowest one are a multiple of the next power. -/
theorem IsLowestBit.toNat_eq {x : BitVec w} {t : Nat} (h : IsLowestBit x t) :
    ∃ q, x.toNat = 2 ^ (t + 1) * q + 2 ^ t := by
  have hlow : x.toNat % 2 ^ (t + 1) = 2 ^ t := by
    apply Nat.eq_of_testBit_eq
    intro i
    rw [Nat.testBit_mod_two_pow, BitVec.testBit_toNat, Nat.testBit_two_pow]
    rcases Nat.lt_trichotomy i t with hi | rfl | hi
    · have hne : t ≠ i := by omega
      rw [h.clear_below i hi, Bool.and_false, decide_eq_false hne]
    · rw [h.set, Bool.and_true]
      simp
    · have hle : ¬ i < t + 1 := by omega
      have hne : t ≠ i := by omega
      rw [decide_eq_false hle, Bool.false_and, decide_eq_false hne]
  refine ⟨x.toNat / 2 ^ (t + 1), ?_⟩
  rw [← hlow, Nat.div_add_mod]

/-! ## Bits of a number with a known low part -/

theorem testBit_split {t low : Nat} (q : Nat) (hlow : low < 2 ^ (t + 1)) (i : Nat) :
    (2 ^ (t + 1) * q + low).testBit i =
      if i < t + 1 then low.testBit i else q.testBit (i - (t + 1)) :=
  Nat.testBit_two_pow_mul_add q hlow i

theorem two_pow_lt_succ (t : Nat) : 2 ^ t < 2 ^ (t + 1) :=
  Nat.pow_lt_pow_right (by decide) (Nat.lt_succ_self t)

/-- Subtracting one reaches only the low part. -/
theorem toNat_sub_one {x : BitVec w} {t q : Nat} (ht : t < w)
    (hx : x.toNat = 2 ^ (t + 1) * q + 2 ^ t) :
    (x - 1).toNat = 2 ^ (t + 1) * q + (2 ^ t - 1) := by
  have hpos : 0 < 2 ^ t := Nat.two_pow_pos t
  have hone : (1 : BitVec w).toNat = 1 := by
    have hwidth : 1 < 2 ^ w := Nat.one_lt_two_pow (Nat.ne_of_gt (Nat.zero_lt_of_lt ht))
    exact Nat.mod_eq_of_lt hwidth
  have hle : (1 : BitVec w) ≤ x := by
    rw [BitVec.le_def, hone]
    omega
  rw [BitVec.toNat_sub_of_le hle, hone, hx]
  omega

/-! ## The operations -/

/-- Clearing the lowest set bit leaves the bits above it. -/
theorem toNat_blsr {x : BitVec w} {t : Nat} (h : IsLowestBit x t) :
    (blsr x).1.toNat = x.toNat - 2 ^ t := by
  obtain ⟨q, hx⟩ := h.toNat_eq
  have hpos : 0 < 2 ^ t := Nat.two_pow_pos t
  have hlt := two_pow_lt_succ t
  have hand : (2 ^ (t + 1) * q + 2 ^ t) &&& (2 ^ (t + 1) * q + (2 ^ t - 1)) =
      2 ^ (t + 1) * q + 0 := by
    apply Nat.eq_of_testBit_eq
    intro i
    rw [Nat.testBit_and, testBit_split q hlt, testBit_split q (by omega), testBit_split q (by omega)]
    by_cases hi : i < t + 1
    · rw [if_pos hi, if_pos hi, if_pos hi, Nat.testBit_two_pow, Nat.testBit_two_pow_sub_one,
        Nat.zero_testBit, Bool.and_eq_false_imp, decide_eq_true_iff, decide_eq_false_iff_not]
      omega
    · rw [if_neg hi, if_neg hi, if_neg hi, Bool.and_self]
  calc
    (blsr x).1.toNat = x.toNat &&& (x - 1).toNat := BitVec.toNat_and x (x - 1)
    _ = (2 ^ (t + 1) * q + 2 ^ t) &&& (2 ^ (t + 1) * q + (2 ^ t - 1)) := by
      rw [toNat_sub_one h.lt_width hx, hx]
    _ = 2 ^ (t + 1) * q + 0 := hand
    _ = x.toNat - 2 ^ t := by
      rw [hx, Nat.add_sub_cancel, Nat.add_zero]

/-- The bits up to and including the lowest set bit. -/
theorem toNat_blsmsk {x : BitVec w} {t : Nat} (h : IsLowestBit x t) :
    (blsmsk x).1.toNat = 2 ^ (t + 1) - 1 := by
  obtain ⟨q, hx⟩ := h.toNat_eq
  have hpos : 0 < 2 ^ t := Nat.two_pow_pos t
  have hlt := two_pow_lt_succ t
  change (x ^^^ (x - 1)).toNat = _
  rw [BitVec.toNat_xor, toNat_sub_one h.lt_width hx, hx]
  apply Nat.eq_of_testBit_eq
  intro i
  rw [Nat.testBit_xor, testBit_split q hlt, testBit_split q (by omega)]
  by_cases hi : i < t + 1
  · rw [if_pos hi, if_pos hi, Nat.testBit_two_pow, Nat.testBit_two_pow_sub_one,
      Nat.testBit_two_pow_sub_one, decide_eq_true hi]
    by_cases heq : t = i
    · have hge : ¬ i < t := by omega
      rw [decide_eq_true heq, decide_eq_false hge]
      rfl
    · have hbelow : i < t := by omega
      rw [decide_eq_false heq, decide_eq_true hbelow]
      rfl
  · rw [if_neg hi, if_neg hi, Bool.xor_self, Nat.testBit_two_pow_sub_one, decide_eq_false hi]

/-- The negative of a word complements every bit above its lowest set bit. -/
theorem getLsbD_neg_eq (x : BitVec w) {i : Nat} (hi : i < w) :
    (-x).getLsbD i = !(x - 1).getLsbD i := by
  have hneg : -x = ~~~(x - 1#w) := by
    rw [← BitVec.not_neg, BitVec.not_not]
  rw [hneg, BitVec.getLsbD_not, decide_eq_true hi, Bool.true_and]
  rfl

/-- Isolating keeps a set bit where the predecessor is clear, and clearing keeps it where that is set. -/
theorem getLsbD_blsi (x : BitVec w) {i : Nat} (hi : i < w) :
    (blsi x).1.getLsbD i = (x.getLsbD i && !(x - 1).getLsbD i) := by
  change (x &&& -x).getLsbD i = _
  rw [BitVec.getLsbD_and, getLsbD_neg_eq x hi]

theorem getLsbD_blsr (x : BitVec w) (i : Nat) :
    (blsr x).1.getLsbD i = (x.getLsbD i && (x - 1).getLsbD i) :=
  BitVec.getLsbD_and

/-- The lowest set bit alone. -/
theorem blsi_eq_twoPow {x : BitVec w} {t : Nat} (h : IsLowestBit x t) :
    (blsi x).1 = BitVec.twoPow w t := by
  obtain ⟨q, hx⟩ := h.toNat_eq
  have hpos : 0 < 2 ^ t := Nat.two_pow_pos t
  have hlt := two_pow_lt_succ t
  apply BitVec.eq_of_getLsbD_eq
  intro i hi
  rw [getLsbD_blsi x hi, ← BitVec.testBit_toNat, ← BitVec.testBit_toNat,
    toNat_sub_one h.lt_width hx, hx, testBit_split q hlt, testBit_split q (by omega),
    BitVec.getLsbD_twoPow, decide_eq_true h.lt_width, Bool.true_and]
  by_cases hle : i < t + 1
  · rw [if_pos hle, if_pos hle, Nat.testBit_two_pow, Nat.testBit_two_pow_sub_one]
    by_cases heq : t = i
    · have hge : ¬ i < t := by omega
      rw [decide_eq_true heq, decide_eq_false hge]
      rfl
    · rw [decide_eq_false heq, Bool.false_and]
  · have hne : t ≠ i := by omega
    rw [if_neg hle, if_neg hle, Bool.and_not_self, decide_eq_false hne]

theorem toNat_blsi {x : BitVec w} {t : Nat} (h : IsLowestBit x t) :
    (blsi x).1.toNat = 2 ^ t := by
  rw [blsi_eq_twoPow h, BitVec.toNat_twoPow_of_lt h.lt_width]

/-! ## Zero -/

theorem blsr_zero : (blsr (0 : BitVec w)).1 = 0 := BitVec.zero_and

theorem blsi_zero : (blsi (0 : BitVec w)).1 = 0 := BitVec.zero_and

theorem blsmsk_zero : (blsmsk (0 : BitVec w)).1 = BitVec.allOnes w := by
  change 0#w ^^^ (0#w - 1#w) = _
  rw [BitVec.zero_xor, BitVec.zero_sub, BitVec.neg_one_eq_allOnes]

end TrapEmulation.BitManip
