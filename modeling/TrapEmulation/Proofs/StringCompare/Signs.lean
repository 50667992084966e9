import TrapEmulation.Proofs.StringCompare.ValidData

/-!
# Signed elements

Flipping the sign bit of every element adds the same bias to all of them, which turns the order of signed
elements into that of unsigned ones.  So a comparison of signed elements is one of unsigned elements on
biased operands, and where only equality counts the bias is not even needed.
-/

namespace TrapEmulation.StringCompare

/-! ## Bias -/

theorem xor_two_pow_of_lt {n k : Nat} (h : n < 2 ^ k) : n ^^^ 2 ^ k = n + 2 ^ k := by
  have hpos : 0 < 2 ^ k := Nat.two_pow_pos k
  calc
    n ^^^ 2 ^ k = 2 ^ k * ((n ^^^ 2 ^ k) / 2 ^ k) + (n ^^^ 2 ^ k) % 2 ^ k :=
      (Nat.div_add_mod _ _).symm
    _ = 2 ^ k * 1 + n := by
      rw [Nat.xor_div_two_pow, Nat.xor_mod_two_pow, Nat.div_eq_of_lt h, Nat.mod_eq_of_lt h,
        Nat.div_self hpos, Nat.mod_self, Nat.zero_xor, Nat.xor_zero]
    _ = n + 2 ^ k := by rw [Nat.mul_one, Nat.add_comm]

/-- Flipping the sign bit of a word adds half of the range to the number it stands for. -/
theorem toNat_xor_intMin {w : Nat} (x : BitVec (w + 1)) :
    ((x ^^^ BitVec.intMin (w + 1)).toNat : Int) = x.toInt + (2 ^ w : Nat) := by
  have hrange : 2 ^ (w + 1) = 2 * 2 ^ w := Nat.pow_succ'
  have hlt := x.isLt
  have hmin : (BitVec.intMin (w + 1)).toNat = 2 ^ w := BitVec.toNat_intMin_of_pos (Nat.succ_pos w)
  rw [BitVec.toNat_xor, hmin, BitVec.toInt_eq_toNat_cond]
  by_cases hlow : x.toNat < 2 ^ w
  · have hpositive : 2 * x.toNat < 2 ^ (w + 1) := by omega
    rw [if_pos hpositive, xor_two_pow_of_lt hlow]
    exact Int.natCast_add _ _
  · -- The upper half is the lower one with the sign bit set.
    obtain ⟨rest, hrest⟩ := Nat.exists_eq_add_of_le (Nat.le_of_not_lt hlow)
    have hrestLt : rest < 2 ^ w := by omega
    have hnegative : ¬ 2 * x.toNat < 2 ^ (w + 1) := by omega
    rw [if_neg hnegative, hrest, Nat.add_comm, ← xor_two_pow_of_lt hrestLt, Nat.xor_xor_cancel_right,
      xor_two_pow_of_lt hrestLt]
    omega

theorem extractLsb'_replicate {w n i : Nat} (hi : i < n) (x : BitVec w) :
    (x.replicate n).extractLsb' (i * w) w = x := by
  apply BitVec.eq_of_getLsbD_eq
  intro k hk
  have hwithin : i * w + k < w * n := by
    calc
      i * w + k < i * w + w := Nat.add_lt_add_left hk _
      _ = w * (i + 1) := by rw [Nat.mul_succ, Nat.mul_comm]
      _ ≤ w * n := Nat.mul_le_mul_left w hi
  rw [BitVec.getLsbD_extractLsb', BitVec.getLsbD_replicate, Nat.mul_add_mod_of_lt hk, decide_eq_true hk,
    decide_eq_true hwithin, Bool.true_and, Bool.true_and]

theorem toNat_extractLsb'_xor_replicate {w n i : Nat} (hi : i < n) (v : BitVec ((w + 1) * n)) :
    (((v ^^^ BitVec.replicate n (BitVec.intMin (w + 1))).extractLsb' (i * (w + 1)) (w + 1)).toNat : Int) =
      (v.extractLsb' (i * (w + 1)) (w + 1)).toInt + (2 ^ w : Nat) := by
  rw [BitVec.extractLsb'_xor, extractLsb'_replicate hi, toNat_xor_intMin]

/-! ## Formats -/

namespace ElementFormat

/-- The format that reads the same elements without a sign. -/
def unsigned : ElementFormat → ElementFormat
  | unsignedBytes | signedBytes => unsignedBytes
  | unsignedWords | signedWords => unsignedWords

theorem count_unsigned (format : ElementFormat) : format.unsigned.count = format.count := by
  cases format <;> rfl

/-- The sign bit of every element. -/
def signBits : ElementFormat → BitVec 128
  | unsignedBytes | signedBytes => BitVec.replicate 16 0x80#8
  | unsignedWords | signedWords => BitVec.replicate 8 0x8000#16

end ElementFormat

theorem element_xor_signBits {format : ElementFormat} (hsigned : format.signed = true) {i : Nat}
    (hi : i < format.count) (v : BitVec 128) :
    element format.unsigned (v ^^^ format.signBits) i =
      element format v i + (2 ^ (format.bits - 1) : Nat) := by
  cases format with
  | unsignedBytes => cases hsigned
  | unsignedWords => cases hsigned
  | signedBytes => exact toNat_extractLsb'_xor_replicate (w := 7) (n := 16) hi v
  | signedWords => exact toNat_extractLsb'_xor_replicate (w := 15) (n := 8) hi v

/-- Two elements are equal if their bits are, with or without a sign. -/
theorem element_unsigned_eq_iff (format : ElementFormat) (a b : BitVec 128) (i j : Nat) :
    element format.unsigned a i = element format.unsigned b j ↔ element format a i = element format b j := by
  cases format with
  | unsignedBytes => exact Iff.rfl
  | unsignedWords => exact Iff.rfl
  | signedBytes => exact (Int.natCast_inj.trans BitVec.toNat_inj).trans BitVec.toInt_inj.symm
  | signedWords => exact (Int.natCast_inj.trans BitVec.toNat_inj).trans BitVec.toInt_inj.symm

/-! ## Comparisons -/

theorem Aggregation.relates_add (aggregation : Aggregation) (row : Nat) (a b bias : Int) :
    aggregation.relates row (a + bias) (b + bias) = aggregation.relates row a b := by
  cases aggregation <;> simp [Aggregation.relates]

/-- Only ranges look at more than equality. -/
theorem Aggregation.relates_eq_beq {aggregation : Aggregation} (h : aggregation ≠ .ranges) (row : Nat)
    (a b : Int) : aggregation.relates row a b = (a == b) := by
  cases aggregation with
  | ranges => exact absurd rfl h
  | equalAny => rfl
  | equalEach => rfl
  | equalOrdered => rfl

theorem compare_unsigned_xor_signBits (control : Control) (hsigned : control.format.signed = true)
    (a b : BitVec 128) (la lb : Nat) :
    compare { control with format := control.format.unsigned } (a ^^^ control.format.signBits)
      (b ^^^ control.format.signBits) la lb = compare control a b la lb := by
  refine compare_congr control control.format.count_unsigned fun i hi j hj ↦ ?_
  have hiCount : i < control.format.count := Nat.lt_of_lt_of_le hi (Nat.min_le_right _ _)
  have hjCount : j < control.format.count := Nat.lt_of_lt_of_le hj (Nat.min_le_right _ _)
  rw [element_xor_signBits hsigned hiCount, element_xor_signBits hsigned hjCount,
    Aggregation.relates_add]

theorem compare_unsigned (control : Control) (haggregation : control.aggregation ≠ .ranges)
    (a b : BitVec 128) (la lb : Nat) :
    compare { control with format := control.format.unsigned } a b la lb = compare control a b la lb := by
  refine compare_congr control control.format.count_unsigned fun i _ j _ ↦ ?_
  rw [Aggregation.relates_eq_beq haggregation, Aggregation.relates_eq_beq haggregation,
    Bool.eq_iff_iff, beq_iff_eq, beq_iff_eq]
  exact element_unsigned_eq_iff control.format a b i j

/-- Comparing signed elements is comparing unsigned ones with every sign bit flipped; unless ranges are asked
for, the operands may be left as they are. -/
theorem compare_signed (aggregation : Aggregation) (polarity : Polarity) (msb : Bool) (a b : BitVec 128)
    (la lb : Nat) :
    compare ⟨.signedBytes, aggregation, polarity, msb⟩ a b la lb =
        compare ⟨.unsignedBytes, aggregation, polarity, msb⟩ (a ^^^ BitVec.replicate 16 0x80#8)
          (b ^^^ BitVec.replicate 16 0x80#8) la lb ∧
      compare ⟨.signedWords, aggregation, polarity, msb⟩ a b la lb =
        compare ⟨.unsignedWords, aggregation, polarity, msb⟩ (a ^^^ BitVec.replicate 8 0x8000#16)
          (b ^^^ BitVec.replicate 8 0x8000#16) la lb ∧
      (aggregation ≠ .ranges →
        compare ⟨.signedBytes, aggregation, polarity, msb⟩ a b la lb =
            compare ⟨.unsignedBytes, aggregation, polarity, msb⟩ a b la lb ∧
          compare ⟨.signedWords, aggregation, polarity, msb⟩ a b la lb =
            compare ⟨.unsignedWords, aggregation, polarity, msb⟩ a b la lb) := by
  let bytes : Control := ⟨.signedBytes, aggregation, polarity, msb⟩
  let words : Control := ⟨.signedWords, aggregation, polarity, msb⟩
  refine ⟨?_, ?_, fun haggregation ↦ ⟨?_, ?_⟩⟩
  · exact (compare_unsigned_xor_signBits bytes rfl a b la lb).symm
  · exact (compare_unsigned_xor_signBits words rfl a b la lb).symm
  · exact (compare_unsigned bytes haggregation a b la lb).symm
  · exact (compare_unsigned words haggregation a b la lb).symm

/-- Minus one lies between the most negative word and zero, but without signs above both.  Whether it is equal
to one of them does not depend on signs. -/
theorem compare_signed_mostNegative :
    (compare ⟨.signedWords, .ranges, .positive, false⟩ 0x8000 0xFFFF 2 1).result = 1 ∧
      (compare ⟨.unsignedWords, .ranges, .positive, false⟩ 0x8000 0xFFFF 2 1).result = 0 ∧
      Aggregation.equalAny ≠ .ranges ∧
      compare ⟨.signedWords, .equalAny, .maskedNegative, false⟩ 0x8000 0xFFFF 2 1 =
        compare ⟨.unsignedWords, .equalAny, .maskedNegative, false⟩ 0x8000 0xFFFF 2 1 := by
  have hequal : Aggregation.equalAny ≠ .ranges := by decide
  exact ⟨by decide, by decide, hequal,
    ((compare_signed .equalAny .maskedNegative false 0x8000 0xFFFF 2 1).2.2 hequal).2⟩

end TrapEmulation.StringCompare
