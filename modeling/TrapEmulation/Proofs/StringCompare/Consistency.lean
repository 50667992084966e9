import Mathlib.Order.Bounds.Basic
import TrapEmulation.Proofs.StringCompare.Outputs

/-!
# Outputs of one outcome

The position, the mask and the flags of an outcome are computed apart from one another, but they all tell
which positions of the result are set.  What makes them agree is that a comparison never sets a position past
the last element, whatever is negated.
-/

namespace TrapEmulation.StringCompare

open Reference

/-! ## Outcomes of comparisons -/

/-- The elements fill an operand, and no position past the last of them is set. -/
structure Outcome.Fits (o : Outcome) : Prop where
  count_cases : o.count = 8 ∨ o.count = 16
  clear : ∀ j, o.count ≤ j → o.result.getLsbD j = false

theorem getLsbD_aggregate_of_le (aggregation : Aggregation) (m : ComparisonMatrix) {j : Nat}
    (hj : m.size ≤ j) : (m.aggregate aggregation).getLsbD j = false := by
  rw [ComparisonMatrix.aggregate, getLsbD_ofBits, decide_eq_false (Nat.not_lt_of_le hj), Bool.false_and,
    Bool.and_false]

theorem getLsbD_negate_of_le (polarity : Polarity) {count lb j : Nat} (hlb : lb ≤ count) (hj : count ≤ j)
    {bits : BitVec 16} (hbits : bits.getLsbD j = false) :
    (polarity.negate count lb bits).getLsbD j = false := by
  have hmask {places : Nat} (hplaces : places ≤ count) :
      (bits ^^^ lowMask 16 places).getLsbD j = false := by
    have hkept : ¬ j < places := Nat.not_lt_of_le (Nat.le_trans hplaces hj)
    rw [BitVec.getLsbD_xor, getLsbD_lowMask, hbits, decide_eq_false hkept, Bool.and_false, Bool.xor_false]
  cases polarity with
  | positive => exact hbits
  | negative => exact hmask (Nat.le_refl count)
  | maskedPositive => exact hbits
  | maskedNegative => exact hmask hlb

theorem compare_fits (control : Control) (a b : BitVec 128) (la lb : Nat) :
    (compare control a b la lb).Fits where
  count_cases := by
    change control.format.count = 8 ∨ control.format.count = 16
    cases control.format <;> decide
  clear _ hj :=
    getLsbD_negate_of_le _ (Nat.min_le_right _ _) hj (getLsbD_aggregate_of_le _ _ hj)

/-! ## Positions -/

theorem isLeast_of_find?_range {n i : Nat} {p : Nat → Bool} (h : (List.range n).find? p = some i) :
    IsLeast {j | j < n ∧ p j = true} i := by
  obtain ⟨hset, hmem, hbelow⟩ := List.find?_range_eq_some.mp h
  refine ⟨⟨List.mem_range.mp hmem, hset⟩, fun j hj ↦ ?_⟩
  by_contra hlt
  have hclear := hbelow j (Nat.lt_of_not_le hlt)
  rw [hj.2] at hclear
  cases hclear

theorem isGreatest_of_find?_reverse_range {n i : Nat} {p : Nat → Bool}
    (h : (List.range n).reverse.find? p = some i) : IsGreatest {j | j < n ∧ p j = true} i := by
  induction n with
  | zero => cases h
  | succ n ih =>
    rw [List.range_succ, List.reverse_append, List.reverse_singleton, List.singleton_append,
      List.find?_cons] at h
    cases hlast : p n with
    | true =>
      rw [hlast] at h
      obtain rfl : i = n := (Option.some.inj h).symm
      exact ⟨⟨Nat.lt_succ_self i, hlast⟩, fun j hj ↦ Nat.le_of_lt_succ hj.1⟩
    | false =>
      rw [hlast] at h
      obtain ⟨⟨hlt, hset⟩, hbound⟩ := ih h
      refine ⟨⟨Nat.lt_succ_of_lt hlt, hset⟩, fun j hj ↦ hbound ⟨?_, hj.2⟩⟩
      refine Nat.lt_of_le_of_ne (Nat.le_of_lt_succ hj.1) fun heq ↦ ?_
      rw [← heq, hj.2] at hlast
      cases hlast

namespace Outcome

variable {o : Outcome}

/-- The positions that are set are among the sixteen that are searched. -/
theorem setOf_lt_and_getLsbD (o : Outcome) :
    {j | j < 16 ∧ o.result.getLsbD j = true} = {j | o.result.getLsbD j = true} := by
  ext j
  exact ⟨And.right, fun hset ↦ ⟨BitVec.lt_of_getLsbD hset, hset⟩⟩

theorem find?_eq_index (hne : o.result ≠ 0) (highest : Bool) :
    ((if highest then (List.range 16).reverse else List.range 16).find? fun i ↦ o.result.getLsbD i) =
      some (o.index highest) := by
  obtain ⟨j, hj, hset⟩ := exists_getLsbD hne
  have hmem : j ∈ if highest then (List.range 16).reverse else List.range 16 := by
    cases highest with
    | false => exact hj
    | true => exact List.mem_reverse.mpr hj
  obtain ⟨i, hfind⟩ := Option.isSome_iff_exists.mp (List.find?_isSome.mpr ⟨j, hmem, hset⟩)
  rw [index, hfind, Option.getD_some]

theorem isLeast_index (hne : o.result ≠ 0) : IsLeast {j | o.result.getLsbD j = true} (o.index false) := by
  rw [← setOf_lt_and_getLsbD]
  exact isLeast_of_find?_range (find?_eq_index hne false)

theorem isGreatest_index (hne : o.result ≠ 0) :
    IsGreatest {j | o.result.getLsbD j = true} (o.index true) := by
  rw [← setOf_lt_and_getLsbD]
  exact isGreatest_of_find?_reverse_range (find?_eq_index hne true)

/-- The position that is given is set if any is. -/
theorem getLsbD_index (hne : o.result ≠ 0) (highest : Bool) :
    o.result.getLsbD (o.index highest) = true := by
  cases highest with
  | false => exact (isLeast_index hne).1
  | true => exact (isGreatest_index hne).1

namespace Fits

theorem lt_count (h : o.Fits) {j : Nat} (hset : o.result.getLsbD j = true) : j < o.count := by
  by_contra hge
  rw [h.clear j (Nat.le_of_not_lt hge)] at hset
  cases hset

theorem index_lt_count_iff (h : o.Fits) (highest : Bool) : o.index highest < o.count ↔ o.result ≠ 0 := by
  refine ⟨fun hlt hzero ↦ ?_, fun hne ↦ h.lt_count (getLsbD_index hne highest)⟩
  rw [index_of_result_eq_zero hzero] at hlt
  exact Nat.lt_irrefl _ hlt

theorem index_eq_count_iff (h : o.Fits) (highest : Bool) : o.index highest = o.count ↔ o.result = 0 := by
  refine ⟨fun heq ↦ ?_, fun hzero ↦ index_of_result_eq_zero hzero highest⟩
  by_contra hne
  exact Nat.ne_of_lt ((h.index_lt_count_iff highest).mpr hne) heq

theorem index_eq_zero_iff (h : o.Fits) : o.index false = 0 ↔ o.result.getLsbD 0 = true := by
  constructor
  · intro hindex
    have hpos : 0 < o.count := by
      obtain hcount | hcount := h.count_cases <;> omega
    have hne : o.result ≠ 0 := by
      rwa [← h.index_lt_count_iff false, hindex]
    rw [← hindex]
    exact getLsbD_index hne false
  · intro hset
    have hne : o.result ≠ 0 := by
      intro hzero
      rw [hzero, BitVec.ofNat_eq_ofNat, BitVec.getLsbD_zero] at hset
      cases hset
    exact Nat.le_zero.mp ((isLeast_index hne).2 hset)

end Fits

/-! ## Masks -/

theorem getLsbD_mask_expanded (o : Outcome) (k : Nat) :
    (o.mask true).getLsbD k = (decide (k < 128) && o.result.getLsbD (k / (128 / o.count))) := by
  rw [mask, if_pos rfl, getLsbD_ofBits]

/-- Reads a result back from a mask, the lowest bit of each element for an expanded one. -/
def readMask (count : Nat) (expanded : Bool) (mask : BitVec 128) : BitVec 16 :=
  if expanded then ofBits 16 fun j ↦ decide (j < count) && mask.getLsbD (j * (128 / count))
  else mask.setWidth 16

namespace Fits

/-- The elements of a mask lie side by side and fill it. -/
theorem count_mul_width (h : o.Fits) : o.count * (128 / o.count) = 128 := by
  obtain hcount | hcount := h.count_cases <;> rw [hcount]

theorem getLsbD_mask_element (h : o.Fits) {j k : Nat} (hj : j < o.count) (hk : k < 128 / o.count) :
    (o.mask true).getLsbD (j * (128 / o.count) + k) = o.result.getLsbD j := by
  have hsize := h.count_mul_width
  rw [getLsbD_mask_expanded]
  generalize 128 / o.count = width at hk hsize ⊢
  have hplace : (j * width + k) / width = j := by
    rw [Nat.mul_comm, Nat.mul_add_div (Nat.zero_lt_of_lt hk), Nat.div_eq_of_lt hk, Nat.add_zero]
  have hwithin : j * width + k < 128 := by
    calc
      j * width + k < j * width + width := Nat.add_lt_add_left hk _
      _ = (j + 1) * width := (Nat.succ_mul j width).symm
      _ ≤ o.count * width := Nat.mul_le_mul_right width hj
      _ = 128 := hsize
  rw [hplace, decide_eq_true hwithin, Bool.true_and]

theorem extractLsb'_mask (h : o.Fits) {j : Nat} (hj : j < o.count) :
    (o.mask true).extractLsb' (j * (128 / o.count)) (128 / o.count) =
      if o.result.getLsbD j then BitVec.allOnes _ else 0 := by
  apply BitVec.eq_of_getLsbD_eq
  intro k hk
  rw [BitVec.getLsbD_extractLsb', decide_eq_true hk, Bool.true_and, h.getLsbD_mask_element hj hk]
  cases o.result.getLsbD j with
  | false => exact BitVec.getLsbD_zero.symm
  | true => rw [if_pos rfl, BitVec.getLsbD_allOnes, decide_eq_true hk]

theorem readMask_mask (h : o.Fits) (expanded : Bool) :
    readMask o.count expanded (o.mask expanded) = o.result := by
  cases expanded with
  | false =>
    change (o.result.setWidth 128).setWidth 16 = o.result
    rw [BitVec.setWidth_setWidth_of_le _ (by decide), BitVec.setWidth_eq]
  | true =>
    have hwidth : 0 < 128 / o.count := by
      obtain hcount | hcount := h.count_cases <;> rw [hcount] <;> decide
    apply BitVec.eq_of_getLsbD_eq
    intro j hj
    rw [readMask, if_pos rfl, getLsbD_ofBits, decide_eq_true hj, Bool.true_and]
    by_cases hlt : j < o.count
    · rw [decide_eq_true hlt, Bool.true_and]
      exact h.getLsbD_mask_element hlt hwidth
    · rw [decide_eq_false hlt, Bool.false_and, h.clear j (Nat.le_of_not_lt hlt)]

end Fits

/-! ## Flags -/

/-- The flags of an outcome as its lowest position and its lengths tell them. -/
def positionFlags (o : Outcome) : List (Nat × Bool) :=
  [(carryFlag, decide (o.index false < o.count)), (zeroFlag, decide (o.lb < o.count)),
    (signFlag, decide (o.la < o.count)), (overflowFlag, decide (o.index false = 0)),
    (adjustFlag, false), (parityFlag, false)]

theorem Fits.written?_flags (h : o.Fits) (place : Nat) :
    o.flags.written? place = o.positionFlags.lookup place := by
  have hcarry : (o.result != 0) = decide (o.index false < o.count) := by
    rw [Bool.eq_iff_iff, bne_iff_ne, decide_eq_true_iff, h.index_lt_count_iff]
  have hoverflow : o.result.getLsbD 0 = decide (o.index false = 0) := by
    rw [Bool.eq_iff_iff, decide_eq_true_iff, h.index_eq_zero_iff]
  rw [positionFlags, ← hcarry, ← hoverflow]
  exact FlagUpdate.written?_ofList (by simp) place

/-- Every other place of the flags register keeps its bit, except for the reserved one, which is set. -/
theorem Fits.getLsbD_apply_flags (h : o.Fits) (rflags : BitVec 64) (place : Nat) :
    (o.flags.apply rflags).getLsbD place =
      ((o.positionFlags.lookup place).getD (rflags.getLsbD place) || place == 1) := by
  have hlt : 1 < 64 := by decide
  have hreserved : Flag.reservedMask.getLsbD place = (place == 1) :=
    Changes.getLsbD_twoPow_of_lt hlt place
  rw [FlagUpdate.getLsbD_apply_eq_written?, h.written?_flags, hreserved]

end Outcome

/-! ## The outputs together -/

/-- Whatever is compared, the positions that are given are the lowest and the highest one that is set, or the
number of elements if there is none; either mask holds the result and nothing else; and the flags follow from
the lowest position and from the lengths.  No other flag is touched but the reserved bit, which is always
set. -/
theorem compare_outputs (control : Control) (a b : BitVec 128) (la lb : Nat) :
    let o := compare control a b la lb
    let set := {j | o.result.getLsbD j = true}
    (o.result ≠ 0 → IsLeast set (o.index false) ∧ IsGreatest set (o.index true)) ∧
      (∀ highest, (o.index highest = o.count ↔ o.result = 0) ∧
        (o.index highest < o.count ↔ o.result ≠ 0)) ∧
      (o.mask false).toNat = o.result.toNat ∧
      o.count * (128 / o.count) = 128 ∧
      (∀ j < o.count, (o.mask true).extractLsb' (j * (128 / o.count)) (128 / o.count) =
        if o.result.getLsbD j then BitVec.allOnes _ else 0) ∧
      (∀ expanded, Outcome.readMask o.count expanded (o.mask expanded) = o.result) ∧
      (∀ place, o.flags.written? place = o.positionFlags.lookup place) ∧
      ∀ rflags place, (o.flags.apply rflags).getLsbD place =
        ((o.positionFlags.lookup place).getD (rflags.getLsbD place) || place == 1) := by
  intro o set
  have h : o.Fits := compare_fits control a b la lb
  have hplain : 16 ≤ 128 := by decide
  refine ⟨fun hne ↦ ⟨Outcome.isLeast_index hne, Outcome.isGreatest_index hne⟩,
    fun highest ↦ ⟨h.index_eq_count_iff highest, h.index_lt_count_iff highest⟩,
    BitVec.toNat_setWidth_of_le hplain, h.count_mul_width, fun _ ↦ h.extractLsb'_mask, h.readMask_mask,
    h.written?_flags, h.getLsbD_apply_flags⟩

/-- The second and the third of four words are found, and all four are negated. -/
theorem compare_outputs_maskedNegative :
    let o := compare ⟨.unsignedWords, .equalAny, .maskedNegative, true⟩ 7 0x2000700070001 1 4
    o.result ≠ 0 ∧ IsLeast {j | o.result.getLsbD j = true} 0 ∧
      IsGreatest {j | o.result.getLsbD j = true} 3 ∧ 3 < o.count ∧
      (o.mask true).extractLsb' (3 * 16) 16 = BitVec.allOnes 16 := by
  intro o
  have hne : o.result ≠ 0 := by decide
  have hhighest : 3 < o.count := by decide
  obtain ⟨hpositions, -, -, -, helements, -⟩ :=
    compare_outputs ⟨.unsignedWords, .equalAny, .maskedNegative, true⟩ 7 0x2000700070001 1 4
  exact ⟨hne, (hpositions hne).1, (hpositions hne).2, hhighest, helements 3 hhighest⟩

/-- The reserved bit is set although it was clear before and no flag of the outcome stands there. -/
theorem apply_flags_reservedClear :
    let o := compare (Control.ofByte 0) 0 0 0 0
    o.positionFlags.lookup 1 = none ∧ (o.flags.apply 0).getLsbD 1 ≠ (0 : BitVec 64).getLsbD 1 := by
  decide

end TrapEmulation.StringCompare
