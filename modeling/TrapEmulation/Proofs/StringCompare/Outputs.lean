import TrapEmulation.Proofs.StringCompare.Results

/-!
# Outputs of a comparison

An outcome holds its result as a word of sixteen bits.  Once its bits are known, position by position,
the position, the mask and the flags that are read off it are those of the reference.
-/

open scoped BigOperators

namespace TrapEmulation.StringCompare

open Reference

/-! ## Positions -/

theorem filter_range_of_le {count width : Nat} (hcount : count ≤ width) :
    (List.range width).filter (fun j ↦ decide (j < count)) = List.range count := by
  induction width, hcount using Nat.le_induction with
  | base =>
    apply List.filter_eq_self.mpr
    intro j hj
    exact decide_eq_true (List.mem_range.mp hj)
  | succ width hle ih =>
    have hlast : decide (width < count) = false := decide_eq_false (Nat.not_lt.mpr hle)
    rw [List.range_succ, List.filter_append, ih, List.filter_singleton, hlast]
    exact List.append_nil _

/-- The outcome's position is searched among all sixteen bits, of which only the elements count. -/
theorem index_eq {o : Outcome} {set : Nat → Bool} (hcount : o.count ≤ 16)
    (hresult : ∀ j, o.result.getLsbD j = (decide (j < o.count) && set j)) (highest : Bool) :
    o.index highest = position highest o.count set := by
  have hset : (fun j ↦ o.result.getLsbD j) =
      fun j ↦ decide (decide (j < o.count) = true ∧ set j = true) := by
    funext j
    rw [hresult]
    cases decide (j < o.count) <;> cases set j <;> rfl
  have hpositions : (if highest then (List.range 16).reverse else List.range 16).filter
      (fun j ↦ decide (j < o.count)) =
        if highest then (List.range o.count).reverse else List.range o.count := by
    cases highest with
    | false => exact filter_range_of_le hcount
    | true =>
      change (List.range 16).reverse.filter _ = (List.range o.count).reverse
      rw [List.filter_reverse, filter_range_of_le hcount]
  change ((if highest then (List.range 16).reverse else List.range 16).find?
    fun j ↦ o.result.getLsbD j).getD o.count =
      ((if highest then (List.range o.count).reverse else List.range o.count).find? set).getD o.count
  rw [hset, ← List.find?_filter, hpositions]

theorem findIdx_range (count : Nat) (p : Nat → Bool) :
    (List.range count).findIdx p = ((List.range count).find? p).getD count := by
  cases hfind : (List.range count).find? p with
  | none =>
    have hnone := List.find?_range_eq_none.mp hfind
    have hfalse : ∀ j ∈ List.range count, p j = false := by
      intro j hj
      simpa using hnone j (List.mem_range.mp hj)
    rw [List.findIdx_eq_length_of_false hfalse, List.length_range]
    rfl
  | some place =>
    obtain ⟨hset, hmem, hbelow⟩ := List.find?_range_eq_some.mp hfind
    have hlt : place < (List.range count).length := by
      rw [List.length_range]
      exact List.mem_range.mp hmem
    change _ = place
    rw [List.findIdx_eq hlt, List.getElem_range]
    refine ⟨hset, ?_⟩
    intro j hj
    rw [List.getElem_range]
    simpa using hbelow j hj

/-! ## Masks -/

theorem spread_succ (size count : Nat) (set : Nat → Bool) :
    spread size (count + 1) set =
      spread size count set + if set count then (2 ^ size - 1) * 2 ^ (size * count) else 0 :=
  Finset.sum_range_succ _ count

theorem spread_lt (size count : Nat) (set : Nat → Bool) :
    spread size count set < 2 ^ (size * count) := by
  induction count with
  | zero => exact Nat.one_pos
  | succ count ih =>
    have hpos : 0 < 2 ^ size := Nat.two_pow_pos size
    have hterm : (if set count then (2 ^ size - 1) * 2 ^ (size * count) else 0) ≤
        (2 ^ size - 1) * 2 ^ (size * count) := by
      cases set count
      · exact Nat.zero_le _
      · exact Nat.le_refl _
    calc
      spread size (count + 1) set ≤
          spread size count set + (2 ^ size - 1) * 2 ^ (size * count) := by
        rw [spread_succ]
        omega
      _ < 2 ^ (size * count) + (2 ^ size - 1) * 2 ^ (size * count) := by omega
      _ = (1 + (2 ^ size - 1)) * 2 ^ (size * count) := by
        rw [Nat.add_mul, Nat.one_mul]
      _ = 2 ^ (size * (count + 1)) := by
        rw [Nat.add_sub_cancel' hpos, Nat.mul_succ, Nat.pow_add, Nat.mul_comm]

/-- Every bit of a spread number is the one of its position. -/
theorem testBit_spread {size : Nat} (hsize : 0 < size) (count : Nat) (set : Nat → Bool) (i : Nat) :
    (spread size count set).testBit i = (decide (i < size * count) && set (i / size)) := by
  induction count with
  | zero =>
    change (0 : Nat).testBit i = _
    simp
  | succ count ih =>
    have hnext : size * (count + 1) = size * count + size := Nat.mul_succ size count
    have hlast (hlow : ¬ i < size * count) (hbelow : i < size * (count + 1)) : i / size = count := by
      apply Nat.div_eq_of_lt_le
      · rw [Nat.mul_comm]
        exact Nat.not_lt.mp hlow
      · rw [Nat.mul_comm]
        exact hbelow
    cases hset : set count with
    | false =>
      rw [spread_succ, hset, if_neg Bool.false_ne_true, Nat.add_zero, ih]
      by_cases hlow : i < size * count
      · have hbelow : i < size * (count + 1) := by omega
        rw [decide_eq_true hlow, decide_eq_true hbelow]
      · rw [decide_eq_false hlow, Bool.false_and]
        by_cases hbelow : i < size * (count + 1)
        · rw [hlast hlow hbelow, hset, Bool.and_false]
        · rw [decide_eq_false hbelow, Bool.false_and]
    | true =>
      rw [spread_succ, hset, if_pos rfl, Nat.add_comm, Nat.mul_comm (2 ^ size - 1),
        Nat.testBit_two_pow_mul_add _ (spread_lt size count set), ih, Nat.testBit_two_pow_sub_one]
      by_cases hlow : i < size * count
      · have hbelow : i < size * (count + 1) := by omega
        rw [if_pos hlow, decide_eq_true hlow, decide_eq_true hbelow]
      · rw [if_neg hlow]
        by_cases hbelow : i < size * (count + 1)
        · have hwithin : i - size * count < size := by omega
          rw [hlast hlow hbelow, hset, decide_eq_true hwithin, decide_eq_true hbelow]
          rfl
        · have hpast : ¬ i - size * count < size := by omega
          rw [decide_eq_false hpast, decide_eq_false hbelow, Bool.false_and]

/-- An expanded mask repeats the bit of each position over its element. -/
theorem toNat_mask_expanded {o : Outcome} {set : Nat → Bool} {size : Nat} (hsize : 0 < size)
    (hcount : size * o.count = 128)
    (hresult : ∀ j, o.result.getLsbD j = (decide (j < o.count) && set j)) :
    (o.mask true).toNat = spread size o.count set := by
  have hpos : 0 < o.count := Nat.pos_of_ne_zero fun h ↦ by
    rw [h] at hcount
    cases hcount
  have hquotient : 128 / o.count = size := by
    rw [← hcount, Nat.mul_div_cancel _ hpos]
  apply Nat.eq_of_testBit_eq
  intro i
  change (ofBits 128 fun i ↦ o.result.getLsbD (i / (128 / o.count))).toNat.testBit i = _
  rw [BitVec.testBit_toNat, getLsbD_ofBits, hquotient, hresult, testBit_spread hsize, hcount]
  have hplace : i / size < o.count ↔ i < 128 := by
    rw [Nat.div_lt_iff_lt_mul hsize, Nat.mul_comm, hcount]
  by_cases hi : i < 128
  · rw [decide_eq_true hi, decide_eq_true (hplace.mpr hi)]
    rfl
  · rw [decide_eq_false hi]
    rfl

/-- A plain mask is the result itself, one bit for each position. -/
theorem toNat_mask_plain {o : Outcome} {set : Nat → Bool}
    (hresult : ∀ j, o.result.getLsbD j = (decide (j < o.count) && set j)) :
    (o.mask false).toNat = spread 1 o.count set := by
  apply Nat.eq_of_testBit_eq
  intro i
  change (o.result.setWidth 128).toNat.testBit i = _
  rw [BitVec.toNat_setWidth_of_le (by decide), BitVec.testBit_toNat, hresult,
    testBit_spread Nat.one_pos, Nat.one_mul, Nat.div_one]

/-! ## Flags -/

/-- The result is empty if no position is set. -/
theorem bne_zero_eq {o : Outcome} {set : Nat → Bool}
    (hresult : ∀ j, o.result.getLsbD j = (decide (j < o.count) && set j)) :
    (o.result != 0) = (List.range o.count).any set := by
  have hclear (j : Nat) : (0 : BitVec 16).getLsbD j = false := BitVec.getLsbD_zero
  rw [Bool.eq_iff_iff, bne_iff_ne, List.any_eq_true]
  constructor
  · intro hne
    obtain ⟨j, -, hbit⟩ := Outcome.exists_getLsbD hne
    rw [hresult, Bool.and_eq_true, decide_eq_true_iff] at hbit
    exact ⟨j, List.mem_range.mpr hbit.1, hbit.2⟩
  · intro h hzero
    obtain ⟨j, hj, hset⟩ := h
    have hbit := hresult j
    rw [hzero, hclear, decide_eq_true (List.mem_range.mp hj), hset] at hbit
    cases hbit

/-! ## Lengths -/

theorem implicitLength_eq (byte : Byte) (operand : BitVec 128) :
    implicitLength (Control.ofByte byte).format operand =
      terminatedLength byte.toNat operand.toNat := by
  have helements : (fun i ↦ element (Control.ofByte byte).format operand i == 0) =
      fun i ↦ elementAt byte.toNat operand.toNat i == 0 := by
    funext i
    rw [element_eq]
  rw [implicitLength, helements, count_ofByte, findIdx_range, terminatedLength]

theorem explicitLength_eq (byte : Byte) (raw : BitVec 64) (wide : Bool) :
    explicitLength (Control.ofByte byte).format raw wide =
      registerLength byte.toNat wide raw.toNat := by
  unfold explicitLength registerLength
  rw [count_ofByte]
  cases wide with
  | true =>
    have hvalue : signed 64 (raw.toNat % 2 ^ 64) = raw.toInt := by
      rw [Nat.mod_eq_of_lt raw.isLt, signed_toNat]
    change min raw.toInt.natAbs _ = min (signed 64 (raw.toNat % 2 ^ 64)).natAbs _
    rw [hvalue]
  | false =>
    have hvalue : signed 32 (raw.toNat % 2 ^ 32) = (raw.setWidth 32).toInt := by
      rw [← BitVec.toNat_setWidth, signed_toNat]
    change min (raw.setWidth 32).toInt.natAbs _ = min (signed 32 (raw.toNat % 2 ^ 32)).natAbs _
    rw [hvalue]

end TrapEmulation.StringCompare
