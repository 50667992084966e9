import Mathlib.Logic.Function.Iterate
import TrapEmulation.Proofs.BitManip.LowestBit
import TrapEmulation.Proofs.BitManip.Reports
import TrapEmulation.Proofs.BitManip.SelectedBits

/-!
# Clearing bits one at a time

The lowest set bit stands at the number of trailing zeros.  Isolating it and clearing it take a word apart
into two disjoint words, so clearing the lowest bit again and again uses up the set bits one by one, and the
number of steps until nothing is left is the population of the word.
-/

namespace TrapEmulation.BitManip

open Reference

variable {w : Nat}

/-! ## The place of the lowest bit -/

theorem isLowestBit_ctz {x : BitVec w} (hx : x ≠ 0) : IsLowestBit x x.ctz.toNat where
  lt_width := BitVec.lt_of_getLsbD (BitVec.getLsbD_true_ctz_of_ne_zero hx)
  set := BitVec.getLsbD_true_ctz_of_ne_zero hx
  clear_below _ hi := BitVec.getLsbD_false_of_lt_ctz hi

/-! ## Taking a word apart -/

theorem blsi_or_blsr (x : BitVec w) : (blsi x).1 ||| (blsr x).1 = x := by
  apply BitVec.eq_of_getLsbD_eq
  intro i hi
  calc
    ((blsi x).1 ||| (blsr x).1).getLsbD i =
        ((x.getLsbD i && !(x - 1).getLsbD i) || (x.getLsbD i && (x - 1).getLsbD i)) := by
      rw [BitVec.getLsbD_or, getLsbD_blsi x hi, getLsbD_blsr]
    _ = (x.getLsbD i && (!(x - 1).getLsbD i || (x - 1).getLsbD i)) :=
      (Bool.and_or_distrib_left _ _ _).symm
    _ = x.getLsbD i := by
      rw [Bool.not_or_self, Bool.and_true]

theorem blsi_and_blsr (x : BitVec w) : (blsi x).1 &&& (blsr x).1 = 0 := by
  apply BitVec.eq_of_getLsbD_eq
  intro i hi
  calc
    ((blsi x).1 &&& (blsr x).1).getLsbD i =
        ((x.getLsbD i && !(x - 1).getLsbD i) && (x.getLsbD i && (x - 1).getLsbD i)) := by
      rw [BitVec.getLsbD_and, getLsbD_blsi x hi, getLsbD_blsr]
    _ = false := by
      cases x.getLsbD i <;> cases (x - 1).getLsbD i <;> rfl
    _ = (0 : BitVec w).getLsbD i := BitVec.getLsbD_zero.symm

/-- What is left after clearing are the other set bits. -/
theorem IsLowestBit.selects_blsr_iff {x : BitVec w} {t : Nat} (h : IsLowestBit x t) (i : Nat) :
    Selects (blsr x).1 i ↔ i ≠ t ∧ Selects x i := by
  unfold Selects
  rw [getLsbD_blsr]
  cases hx : x.getLsbD i with
  | false => simp
  | true =>
    -- At a set bit, the predecessor is clear exactly where isolating keeps the bit.
    have hisolated : (!(x - 1).getLsbD i) = decide (t = i) := by
      calc
        (!(x - 1).getLsbD i) = (blsi x).1.getLsbD i := by
          rw [getLsbD_blsi x (BitVec.lt_of_getLsbD hx), hx, Bool.true_and]
        _ = decide (t = i) := by
          rw [blsi_eq_twoPow h, BitVec.getLsbD_twoPow, decide_eq_true h.lt_width, Bool.true_and]
    have hpredecessor : (x - 1).getLsbD i = !decide (t = i) := by
      rw [← hisolated, Bool.not_not]
    rw [hpredecessor, Bool.true_and, Bool.not_eq_true', decide_eq_false_iff_not, eq_comm]
    simp

/-! ## Counting -/

theorem population_eq_card (x : BitVec w) :
    population x = ((Finset.range w).filter (Selects x)).card :=
  Nat.count_eq_card_filter_range _ _

theorem population_eq_zero_iff (x : BitVec w) : population x = 0 ↔ x = 0 := by
  rw [population, Nat.count_iff_forall_not]
  constructor
  · intro hnone
    apply BitVec.eq_of_getLsbD_eq
    intro i hi
    rw [Bool.eq_false_of_not_eq_true (hnone i hi)]
    exact BitVec.getLsbD_zero.symm
  · rintro rfl i _ hselects
    exact Bool.false_ne_true (BitVec.getLsbD_zero.symm.trans hselects)

/-- Clearing takes away one set bit, if there is one. -/
theorem population_blsr (x : BitVec w) : population (blsr x).1 = population x - 1 := by
  by_cases hx : x = 0
  · rw [hx, blsr_zero, (population_eq_zero_iff 0).mpr rfl]
  · have hlowest := isLowestBit_ctz hx
    have hmem : x.ctz.toNat ∈ (Finset.range w).filter (Selects x) :=
      Finset.mem_filter.mpr ⟨Finset.mem_range.mpr hlowest.lt_width, hlowest.set⟩
    have herase : (Finset.range w).filter (Selects (blsr x).1) =
        ((Finset.range w).filter (Selects x)).erase x.ctz.toNat := by
      ext i
      rw [Finset.mem_filter, Finset.mem_erase, Finset.mem_filter, hlowest.selects_blsr_iff]
      exact and_left_comm
    rw [population_eq_card, herase, Finset.card_erase_of_mem hmem, population_eq_card]

theorem population_iterate_blsr (x : BitVec w) (steps : Nat) :
    population ((fun word ↦ (blsr word).1)^[steps] x) = population x - steps := by
  induction steps with
  | zero => rfl
  | succ steps ih =>
    rw [Function.iterate_succ_apply', population_blsr, ih, Nat.sub_sub]

/-! ## The laws together -/

/-- Isolating the lowest set bit, clearing it and masking up to it give powers of two of its place, the number
of trailing zeros.  The first two split the word, and clearing reaches zero in as many steps as there are set
bits and no sooner.  Each of the three reports zero, sign, carry and overflow and nothing else. -/
theorem lowest_bit_laws (x : BitVec w) :
    (x ≠ 0 →
      (blsi x).1.toNat = 2 ^ x.ctz.toNat ∧
      (blsr x).1.toNat + 2 ^ x.ctz.toNat = x.toNat ∧
      (blsmsk x).1.toNat = 2 ^ (x.ctz.toNat + 1) - 1) ∧
    ((blsi (0 : BitVec w)).1 = 0 ∧ (blsr (0 : BitVec w)).1 = 0 ∧
      (blsmsk (0 : BitVec w)).1 = BitVec.allOnes w) ∧
    ((blsi x).1 ||| (blsr x).1 = x ∧ (blsi x).1 &&& (blsr x).1 = 0) ∧
    (∀ steps, (fun word ↦ (blsr word).1)^[steps] x = 0 ↔ population x ≤ steps) ∧
    ∀ place,
      (blsi x).2.written? place =
        [(zeroFlag, (blsi x).1 == 0), (signFlag, (blsi x).1.msb), (carryFlag, x != 0),
          (overflowFlag, false)].lookup place ∧
      (blsr x).2.written? place =
        [(zeroFlag, (blsr x).1 == 0), (signFlag, (blsr x).1.msb), (carryFlag, x == 0),
          (overflowFlag, false)].lookup place ∧
      (blsmsk x).2.written? place =
        [(zeroFlag, false), (signFlag, (blsmsk x).1.msb), (carryFlag, x == 0),
          (overflowFlag, false)].lookup place := by
  refine ⟨fun hx ↦ ?_, ⟨blsi_zero, blsr_zero, blsmsk_zero⟩, ⟨blsi_or_blsr x, blsi_and_blsr x⟩,
    fun steps ↦ ?_, fun place ↦ ⟨written?_blsi x place, written?_blsr x place, written?_blsmsk x place⟩⟩
  · have hlowest := isLowestBit_ctz hx
    have hle : 2 ^ x.ctz.toNat ≤ x.toNat := BitVec.two_pow_ctz_le_toNat_of_ne_zero hx
    refine ⟨toNat_blsi hlowest, ?_, toNat_blsmsk hlowest⟩
    rw [toNat_blsr hlowest, Nat.sub_add_cancel hle]
  · rw [← population_eq_zero_iff, population_iterate_blsr, Nat.sub_eq_zero_iff_le]

/-- The most negative word is its own lowest bit, and the predecessor has every other bit. -/
theorem lowest_bit_laws_mostNegative :
    (0x80000000 : BitVec 32) ≠ 0 ∧
      (blsi (0x80000000 : BitVec 32)).1.toNat = 2 ^ 31 ∧
      (blsr (0x80000000 : BitVec 32)).1.toNat + 2 ^ 31 = (0x80000000 : BitVec 32).toNat ∧
      (blsmsk (0x80000000 : BitVec 32)).1.toNat = 2 ^ 32 - 1 := by
  have hne : (0x80000000 : BitVec 32) ≠ 0 := by decide
  have hplace : (0x80000000 : BitVec 32).ctz.toNat = 31 := by decide +kernel
  have hlaws := (lowest_bit_laws (0x80000000 : BitVec 32)).1 hne
  rw [hplace] at hlaws
  exact ⟨hne, hlaws⟩

end TrapEmulation.BitManip
