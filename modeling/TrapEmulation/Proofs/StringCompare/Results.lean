import TrapEmulation.Proofs.Reference.StringCompare
import TrapEmulation.StringCompare.Outcome

/-!
# Results of a comparison

The engine builds a matrix of comparisons, replaces the entries past the ends of the strings, reduces
each column and negates.  What it gives at a position is the statement about elements that the
reference makes there.
-/

namespace TrapEmulation.StringCompare

open Reference

/-! ## The control byte as a number -/

def aggregationOf : Nat → Aggregation
  | 0 => .equalAny
  | 1 => .ranges
  | 2 => .equalEach
  | _ => .equalOrdered

def polarityOf : Nat → Polarity
  | 0 => .positive
  | 1 => .negative
  | 2 => .maskedPositive
  | _ => .maskedNegative

/-- The fields of the control byte are digits of its number. -/
theorem ofByte_eq : ∀ byte : Byte,
    let control := Control.ofByte byte
    control.format.bits = elementBits byte.toNat ∧ control.format.count = elementCount byte.toNat ∧
      control.format.signed = !(byte.toNat / 2 % 2 == 0) ∧
      control.aggregation = aggregationOf (byte.toNat / 4 % 4) ∧
      control.polarity = polarityOf (byte.toNat / 16 % 4) ∧
      control.msb = (byte.toNat / 64 % 2 == 1) := by
  decide

theorem bits_ofByte (byte : Byte) : (Control.ofByte byte).format.bits = elementBits byte.toNat :=
  (ofByte_eq byte).1

theorem count_ofByte (byte : Byte) : (Control.ofByte byte).format.count = elementCount byte.toNat :=
  (ofByte_eq byte).2.1

theorem signed_ofByte (byte : Byte) :
    (Control.ofByte byte).format.signed = !(byte.toNat / 2 % 2 == 0) :=
  (ofByte_eq byte).2.2.1

theorem aggregation_ofByte (byte : Byte) :
    (Control.ofByte byte).aggregation = aggregationOf (byte.toNat / 4 % 4) :=
  (ofByte_eq byte).2.2.2.1

theorem polarity_ofByte (byte : Byte) :
    (Control.ofByte byte).polarity = polarityOf (byte.toNat / 16 % 4) :=
  (ofByte_eq byte).2.2.2.2.1

theorem msb_ofByte (byte : Byte) : (Control.ofByte byte).msb = (byte.toNat / 64 % 2 == 1) :=
  (ofByte_eq byte).2.2.2.2.2

/-- The engine reads the elements of the reference. -/
theorem element_eq (byte : Byte) (operand : BitVec 128) (position : Nat) :
    element (Control.ofByte byte).format operand position =
      elementAt byte.toNat operand.toNat position := by
  have hdigit (bits : Nat) : (operand.extractLsb' (position * bits) bits).toNat =
      operand.toNat / 2 ^ (bits * position) % 2 ^ bits := by
    rw [BitVec.extractLsb'_toNat, Nat.shiftRight_eq_div_pow, Nat.mul_comm]
  unfold element elementAt
  rw [signed_ofByte, bits_ofByte]
  by_cases hunsigned : byte.toNat / 2 % 2 = 0
  · rw [hunsigned]
    change ((operand.extractLsb' _ _).toNat : Int) = _
    rw [hdigit]
    rfl
  · have hbeq : (byte.toNat / 2 % 2 == 0) = false := beq_eq_false_iff_ne.mpr hunsigned
    rw [hbeq, if_neg hunsigned]
    change (operand.extractLsb' _ _).toInt = _
    rw [← signed_toNat, hdigit]

/-! ## Columns of the matrix -/

/-- The matrix of two strings, with the entries past their ends replaced. -/
def comparison (aggregation : Aggregation) (count : Nat) (s : Strings) : ComparisonMatrix :=
  (ComparisonMatrix.build aggregation count s.a s.b).forceInvalid aggregation s.la s.lb

theorem cell_comparison (aggregation : Aggregation) (count : Nat) (s : Strings) (i j : Nat) :
    (comparison aggregation count s).cell i j =
      if i < s.la ∧ j < s.lb then aggregation.relates i (s.a i) (s.b j)
      else aggregation.forced (i < s.la) (j < s.lb) := rfl

/-- Any element of the first string may be equal. -/
theorem hit_equalAny {count : Nat} {s : Strings} (hla : s.la ≤ count) (j : Nat) :
    (comparison .equalAny count s).hit .equalAny j =
      decide (j < s.lb ∧ ∃ i < s.la, s.a i = s.b j) := by
  have hcell (i : Nat) : (comparison .equalAny count s).cell i j = true ↔
      i < s.la ∧ j < s.lb ∧ s.a i = s.b j := by
    rw [cell_comparison]
    by_cases hvalid : i < s.la ∧ j < s.lb
    · simp [hvalid, Aggregation.relates]
    · rw [if_neg hvalid]
      simp only [Aggregation.forced, Bool.false_eq_true, false_iff]
      exact fun h ↦ hvalid ⟨h.1, h.2.1⟩
  rw [Bool.eq_iff_iff, decide_eq_true_iff]
  change (List.range count).any _ = true ↔ _
  rw [List.any_eq_true]
  constructor
  · intro h
    obtain ⟨i, -, hi⟩ := h
    obtain ⟨hia, hjb, heq⟩ := (hcell i).mp hi
    exact ⟨hjb, i, hia, heq⟩
  · intro h
    obtain ⟨hjb, i, hia, heq⟩ := h
    exact ⟨i, List.mem_range.mpr (Nat.lt_of_lt_of_le hia hla), (hcell i).mpr ⟨hia, hjb, heq⟩⟩

/-- The element lies in a range that a pair of elements of the first string bounds. -/
theorem hit_ranges {count : Nat} {s : Strings} (hla : s.la ≤ count) (j : Nat) :
    (comparison .ranges count s).hit .ranges j =
      decide (j < s.lb ∧
        ∃ k < s.la, 2 * k + 1 < s.la ∧ s.a (2 * k) ≤ s.b j ∧ s.b j ≤ s.a (2 * k + 1)) := by
  have hcell (i : Nat) : (comparison .ranges count s).cell i j = true ↔
      i < s.la ∧ j < s.lb ∧ if i % 2 = 0 then s.a i ≤ s.b j else s.b j ≤ s.a i := by
    rw [cell_comparison]
    by_cases hvalid : i < s.la ∧ j < s.lb
    · by_cases heven : i % 2 = 0
      · simp [hvalid, Aggregation.relates, heven]
      · simp [hvalid, Aggregation.relates, heven]
    · rw [if_neg hvalid]
      simp only [Aggregation.forced, Bool.false_eq_true, false_iff]
      exact fun h ↦ hvalid ⟨h.1, h.2.1⟩
  have hpair (k : Nat) : ((comparison .ranges count s).cell (2 * k) j &&
      (comparison .ranges count s).cell (2 * k + 1) j) = true ↔
        2 * k + 1 < s.la ∧ j < s.lb ∧ s.a (2 * k) ≤ s.b j ∧ s.b j ≤ s.a (2 * k + 1) := by
    have heven : 2 * k % 2 = 0 := by omega
    have hodd : ¬ (2 * k + 1) % 2 = 0 := by omega
    rw [Bool.and_eq_true, hcell, hcell, if_pos heven, if_neg hodd]
    constructor
    · intro h
      obtain ⟨⟨-, hjb, hlow⟩, hk, -, hhigh⟩ := h
      exact ⟨hk, hjb, hlow, hhigh⟩
    · intro h
      obtain ⟨hk, hjb, hlow, hhigh⟩ := h
      exact ⟨⟨by omega, hjb, hlow⟩, hk, hjb, hhigh⟩
  rw [Bool.eq_iff_iff, decide_eq_true_iff]
  change (List.range (count / 2)).any _ = true ↔ _
  rw [List.any_eq_true]
  constructor
  · intro h
    obtain ⟨k, -, hk⟩ := h
    obtain ⟨hka, hjb, hbounds⟩ := (hpair k).mp hk
    exact ⟨hjb, k, by omega, hka, hbounds⟩
  · intro h
    obtain ⟨hjb, k, -, hka, hbounds⟩ := h
    have hmem : k < count / 2 := by omega
    exact ⟨k, List.mem_range.mpr hmem, (hpair k).mpr ⟨hka, hjb, hbounds⟩⟩

/-- The elements at the position are equal, or both strings have ended. -/
theorem hit_equalEach (count : Nat) (s : Strings) (j : Nat) :
    (comparison .equalEach count s).hit .equalEach j =
      decide ((j < s.la ∧ j < s.lb ∧ s.a j = s.b j) ∨ (s.la ≤ j ∧ s.lb ≤ j)) := by
  change (comparison .equalEach count s).cell j j = _
  rw [cell_comparison, Bool.eq_iff_iff, decide_eq_true_iff]
  by_cases hja : j < s.la
  · by_cases hjb : j < s.lb
    · simp [hja, hjb, Aggregation.relates, Nat.not_le.mpr hja]
    · simp [hja, hjb, Aggregation.forced, Nat.not_le.mpr hja]
  · by_cases hjb : j < s.lb
    · simp [hja, hjb, Aggregation.forced, Nat.not_le.mpr hjb]
    · simp [hja, hjb, Aggregation.forced, Nat.not_lt.mp hja, Nat.not_lt.mp hjb]

/-- The first string begins at the position, as far as the operand reaches. -/
theorem hit_equalOrdered (count : Nat) (s : Strings) (j : Nat) :
    (comparison .equalOrdered count s).hit .equalOrdered j =
      decide (∀ k < min s.la (count - j), j + k < s.lb ∧ s.a k = s.b (j + k)) := by
  have hcell (k : Nat) : (comparison .equalOrdered count s).cell k (j + k) = true ↔
      (k < s.la → j + k < s.lb ∧ s.a k = s.b (j + k)) := by
    rw [cell_comparison]
    by_cases hka : k < s.la
    · by_cases hkb : j + k < s.lb
      · simp [hka, hkb, Aggregation.relates]
      · simp [hka, hkb, Aggregation.forced]
    · simp [hka, Aggregation.forced]
  rw [Bool.eq_iff_iff, decide_eq_true_iff]
  change (List.range (count - j)).all _ = true ↔ _
  rw [List.all_eq_true]
  constructor
  · intro h k hk
    have hmem : k ∈ List.range (count - j) := List.mem_range.mpr (by omega)
    exact (hcell k).mp (h k hmem) (by omega)
  · intro h k hmem
    have hk : k < count - j := List.mem_range.mp hmem
    exact (hcell k).mpr fun hka ↦ h k (by omega)

/-- The reduced column of any aggregation is what the reference says at the position. -/
theorem hit_eq (byte : Byte) {s : Strings} (hla : s.la ≤ elementCount byte.toNat) (j : Nat) :
    let aggregation := (Control.ofByte byte).aggregation
    (comparison aggregation (elementCount byte.toNat) s).hit aggregation j =
      matchesAt byte.toNat s j := by
  intro aggregation
  have haggregation : aggregation = aggregationOf (byte.toNat / 4 % 4) := aggregation_ofByte byte
  unfold matchesAt
  rw [haggregation]
  have hlt : byte.toNat / 4 % 4 < 4 := Nat.mod_lt _ (by decide)
  generalize byte.toNat / 4 % 4 = digit at hlt
  match digit, hlt with
  | 0, _ => exact hit_equalAny hla j
  | 1, _ => exact hit_ranges hla j
  | 2, _ => exact hit_equalEach _ s j
  | 3, _ => exact hit_equalOrdered _ s j

/-! ## Negation -/

/-- Negating by a mask of low bits reaches the positions below its length. -/
theorem getLsbD_xor_lowMask {count places : Nat} (hplaces : places ≤ count) (hcount : count ≤ 16)
    (set : Nat → Bool) (j : Nat) :
    (ofBits 16 (fun j ↦ decide (j < count) && set j) ^^^ lowMask 16 places).getLsbD j =
      (decide (j < count) && if j < places then !set j else set j) := by
  rw [BitVec.getLsbD_xor, getLsbD_ofBits, getLsbD_lowMask]
  by_cases hj : j < count
  · have hwidth : j < 16 := Nat.lt_of_lt_of_le hj hcount
    by_cases hnegated : j < places
    · simp [hj, hwidth, hnegated]
    · simp [hj, hwidth, hnegated]
  · have hkept : ¬ j < places := fun h ↦ hj (Nat.lt_of_lt_of_le h hplaces)
    simp [hj, hkept]

theorem getLsbD_negate {count lb digit : Nat} (hlb : lb ≤ count) (hcount : count ≤ 16)
    (hdigit : digit < 4) (set : Nat → Bool) (j : Nat) :
    ((polarityOf digit).negate count lb (ofBits 16 fun j ↦ decide (j < count) && set j)).getLsbD j =
      (decide (j < count) && negatedAt digit lb j (set j)) := by
  have hkept : (ofBits 16 fun j ↦ decide (j < count) && set j).getLsbD j =
      (decide (j < count) && set j) := by
    rw [getLsbD_ofBits]
    by_cases hj : j < count
    · have hwidth : j < 16 := Nat.lt_of_lt_of_le hj hcount
      simp [hj, hwidth]
    · simp [hj]
  match digit, hdigit with
  | 0, _ => exact hkept
  | 1, _ =>
    change (_ ^^^ lowMask 16 count).getLsbD j = _
    rw [getLsbD_xor_lowMask (Nat.le_refl count) hcount]
    by_cases hj : j < count
    · simp [hj, negatedAt]
    · simp [hj]
  | 2, _ => exact hkept
  | 3, _ => exact getLsbD_xor_lowMask hlb hcount set j

/-- The strings that two operands and their lengths make up. -/
def stringsAt (control : Nat) (a b : BitVec 128) (la lb : Nat) : Strings where
  a := elementAt control a.toNat
  b := elementAt control b.toNat
  la := la
  lb := lb

theorem elementCount_le (control : Nat) : elementCount control ≤ 16 := by
  unfold elementCount
  split
  · decide
  · decide

theorem matrix_ofByte (byte : Byte) (a b : BitVec 128) (la lb : Nat) :
    matrix (Control.ofByte byte) a b la lb =
      comparison (Control.ofByte byte).aggregation (elementCount byte.toNat)
        (stringsAt byte.toNat a b la lb) := by
  have ha : element (Control.ofByte byte).format a = elementAt byte.toNat a.toNat := by
    funext position
    exact element_eq byte a position
  have hb : element (Control.ofByte byte).format b = elementAt byte.toNat b.toNat := by
    funext position
    exact element_eq byte b position
  change (ComparisonMatrix.build _ (Control.ofByte byte).format.count
    (element (Control.ofByte byte).format a) (element (Control.ofByte byte).format b)).forceInvalid
      _ la lb = _
  rw [count_ofByte, ha, hb]
  rfl

/-- The result of a comparison, position by position. -/
theorem getLsbD_result (byte : Byte) (a b : BitVec 128) {la lb : Nat}
    (hla : la ≤ elementCount byte.toNat) (hlb : lb ≤ elementCount byte.toNat) (j : Nat) :
    (compare (Control.ofByte byte) a b la lb).result.getLsbD j =
      (decide (j < elementCount byte.toNat) &&
        resultAt byte.toNat (stringsAt byte.toNat a b la lb) j) := by
  let s := stringsAt byte.toNat a b la lb
  have haggregate : (comparison (Control.ofByte byte).aggregation (elementCount byte.toNat)
      s).aggregate (Control.ofByte byte).aggregation =
        ofBits 16 fun j ↦ decide (j < elementCount byte.toNat) && matchesAt byte.toNat s j := by
    unfold ComparisonMatrix.aggregate
    congr 1
    funext j
    rw [hit_eq byte hla]
    rfl
  have hresult : (compare (Control.ofByte byte) a b la lb).result =
      (polarityOf (byte.toNat / 16 % 4)).negate (elementCount byte.toNat) lb
        (ofBits 16 fun j ↦ decide (j < elementCount byte.toNat) && matchesAt byte.toNat s j) := by
    change (Control.ofByte byte).polarity.negate _ (min lb _)
      ((matrix (Control.ofByte byte) a b (min la _) (min lb _)).aggregate _) = _
    rw [count_ofByte, Nat.min_eq_left hla, Nat.min_eq_left hlb, matrix_ofByte, haggregate,
      polarity_ofByte]
  rw [hresult]
  exact getLsbD_negate hlb (elementCount_le _) (Nat.mod_lt _ (by decide)) _ j

/-- Lengths beyond the number of elements count as that number. -/
theorem compare_min (control : Control) (a b : BitVec 128) (la lb : Nat) :
    compare control a b (min la control.format.count) (min lb control.format.count) =
      compare control a b la lb := by
  unfold compare
  simp only [Nat.min_assoc, Nat.min_self]

/-- Comparing operands of any lengths gives what the elements say: the lengths cut down to the number of
elements, and a result that is set where the reference says so and nowhere past the last element. -/
theorem compare_eq_elementwise (byte : Byte) (a b : BitVec 128) (la lb : Nat) :
    let count := elementCount byte.toNat
    let s := stringsAt byte.toNat a b (min la count) (min lb count)
    let o := compare (Control.ofByte byte) a b la lb
    o.la = s.la ∧ o.lb = s.lb ∧ o.count = count ∧
      (∀ j, count ≤ j → o.result.getLsbD j = false) ∧
      ∀ j < count, o.result.getLsbD j = resultAt byte.toNat s j := by
  intro count s o
  have hcount : (Control.ofByte byte).format.count = count := count_ofByte byte
  have hclamped : o = compare (Control.ofByte byte) a b s.la s.lb := by
    have hmin := compare_min (Control.ofByte byte) a b la lb
    rw [hcount] at hmin
    exact hmin.symm
  have hbit (j : Nat) : o.result.getLsbD j = (decide (j < count) && resultAt byte.toNat s j) := by
    rw [hclamped]
    exact getLsbD_result byte a b (Nat.min_le_right _ _) (Nat.min_le_right _ _) j
  refine ⟨?_, ?_, hcount, ?_, ?_⟩
  · change min la _ = min la _
    rw [hcount]
  · change min lb _ = min lb _
    rw [hcount]
  · intro j hj
    rw [hbit, decide_eq_false (Nat.not_lt.mpr hj), Bool.false_and]
  · intro j hj
    rw [hbit, decide_eq_true hj, Bool.true_and]

end TrapEmulation.StringCompare
