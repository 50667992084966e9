import TrapEmulation.Proofs.BitManip.Clearing
import TrapEmulation.Proofs.BitManip.Arithmetic

/-!
# Operations at two widths

An operation on the zero-extensions of two narrow words gives the narrow result, and nothing above it: the
upper bits of the operands are clear, and so no operation finds anything there to move down or to select.  The
exception is the mask up to the lowest set bit, which fills the whole word when there is none.
-/

open scoped BigOperators

namespace TrapEmulation.BitManip

open Reference

variable {v w : Nat}

/-! ## Words and reports at two widths -/

/-- The narrow word is the low part of the wide one, which has nothing above it. -/
structure LowPart (narrow : BitVec v) (wide : BitVec w) : Prop where
  eq_setWidth : narrow = wide.setWidth v
  lt : wide.toNat < 2 ^ v

theorem LowPart.of_toNat_eq {narrow : BitVec v} {wide : BitVec w} (h : wide.toNat = narrow.toNat) :
    LowPart narrow wide where
  eq_setWidth := by
    apply BitVec.eq_of_toNat_eq
    rw [BitVec.toNat_setWidth, h, Nat.mod_eq_of_lt narrow.isLt]
  lt := by
    rw [h]
    exact narrow.isLt

/-- Both updates write the place, and they write the same. -/
def AgreeAt (place : Nat) (update other : FlagUpdate) : Prop :=
  ∃ on, update.written? place = some on ∧ other.written? place = some on

theorem agreeAt_iff {place : Nat} {update other : FlagUpdate} {on on' : Bool}
    (h : update.written? place = some on) (h' : other.written? place = some on') :
    AgreeAt place update other ↔ on' = on := by
  rw [AgreeAt, h, h']
  constructor
  · intro ⟨value, hon, hon'⟩
    exact (Option.some.inj hon').trans (Option.some.inj hon).symm
  · intro heq
    exact ⟨on, rfl, congrArg some heq⟩

theorem beq_zero_of_toNat_eq {narrow : BitVec v} {wide : BitVec w}
    (h : wide.toNat = narrow.toNat) : (wide == 0) = (narrow == 0) := by
  rw [beq_zero_eq, beq_zero_eq, h]

/-! ## Masks and ranges -/

theorem toNat_andn_setWidth (hle : v ≤ w) (a b : BitVec v) :
    (andn (a.setWidth w) (b.setWidth w)).1.toNat = (andn a b).1.toNat := by
  have hword : (andn (a.setWidth w) (b.setWidth w)).1 = (andn a b).1.setWidth w := by
    apply BitVec.eq_of_getLsbD_eq
    intro i hi
    change (~~~a.setWidth w &&& b.setWidth w).getLsbD i = ((~~~a &&& b).setWidth w).getLsbD i
    simp only [BitVec.getLsbD_and, BitVec.getLsbD_not, BitVec.getLsbD_setWidth, hi, decide_true,
      Bool.true_and]
    by_cases hlow : i < v
    · rw [decide_eq_true hlow, Bool.true_and]
    · rw [BitVec.getLsbD_of_ge b i (Nat.le_of_not_lt hlow), Bool.and_false, Bool.and_false]
  rw [hword, BitVec.toNat_setWidth_of_le hle]

theorem toNat_bzhi_setWidth (hle : v ≤ w) (a b : BitVec v) :
    (bzhi (a.setWidth w) (b.setWidth w)).1.toNat = (bzhi a b).1.toNat := by
  rw [toNat_bzhi, toNat_bzhi, BitVec.toNat_setWidth_of_le hle, BitVec.toNat_setWidth_of_le hle]

theorem toNat_bextr_setWidth (hle : v ≤ w) (a b : BitVec v) :
    (bextr (a.setWidth w) (b.setWidth w)).1.toNat = (bextr a b).1.toNat := by
  rw [toNat_bextr, toNat_bextr, BitVec.toNat_setWidth_of_le hle, BitVec.toNat_setWidth_of_le hle]

/-- The carry says that the place lies past the last bit, so it tells the widths apart between them. -/
theorem agreeAt_carry_bzhi_iff (hle : v ≤ w) (a b : BitVec v) :
    AgreeAt carryFlag (bzhi a b).2 (bzhi (a.setWidth w) (b.setWidth w)).2 ↔
      b.toNat % 256 < v ∨ w ≤ b.toNat % 256 := by
  rw [agreeAt_iff (written?_bzhi a b carryFlag) (written?_bzhi _ _ carryFlag),
    BitVec.toNat_setWidth_of_le hle, decide_eq_decide]
  omega

/-! ## The lowest set bit -/

theorem IsLowestBit.setWidth (hle : v ≤ w) {a : BitVec v} {t : Nat} (h : IsLowestBit a t) :
    IsLowestBit (a.setWidth w) t where
  lt_width := Nat.lt_of_lt_of_le h.lt_width hle
  set := by
    rw [BitVec.getLsbD_setWidth, h.set, decide_eq_true (Nat.lt_of_lt_of_le h.lt_width hle)]
    rfl
  clear_below i hi := by
    rw [BitVec.getLsbD_setWidth, h.clear_below i hi, Bool.and_false]

theorem toNat_blsr_setWidth (hle : v ≤ w) (a : BitVec v) :
    (blsr (a.setWidth w)).1.toNat = (blsr a).1.toNat := by
  by_cases ha : a = 0
  · have hzero : (0 : BitVec v).setWidth w = 0 := BitVec.setWidth_zero w v
    rw [ha, hzero, blsr_zero, blsr_zero]
    rfl
  · have hlowest := isLowestBit_ctz ha
    rw [toNat_blsr hlowest, toNat_blsr (hlowest.setWidth hle), BitVec.toNat_setWidth_of_le hle]

theorem toNat_blsi_setWidth (hle : v ≤ w) (a : BitVec v) :
    (blsi (a.setWidth w)).1.toNat = (blsi a).1.toNat := by
  by_cases ha : a = 0
  · have hzero : (0 : BitVec v).setWidth w = 0 := BitVec.setWidth_zero w v
    rw [ha, hzero, blsi_zero, blsi_zero]
    rfl
  · have hlowest := isLowestBit_ctz ha
    rw [toNat_blsi hlowest, toNat_blsi (hlowest.setWidth hle)]

theorem toNat_blsmsk_setWidth (hle : v ≤ w) {a : BitVec v} (ha : a ≠ 0) :
    (blsmsk (a.setWidth w)).1.toNat = (blsmsk a).1.toNat := by
  have hlowest := isLowestBit_ctz ha
  rw [toNat_blsmsk hlowest, toNat_blsmsk (hlowest.setWidth hle)]

theorem blsmsk_setWidth_zero : (blsmsk ((0 : BitVec v).setWidth w)).1 = BitVec.allOnes w := by
  have hzero : (0 : BitVec v).setWidth w = 0 := BitVec.setWidth_zero w v
  rw [hzero, blsmsk_zero]

theorem blsmsk_eq_setWidth (hle : v ≤ w) (a : BitVec v) :
    (blsmsk a).1 = (blsmsk (a.setWidth w)).1.setWidth v := by
  by_cases ha : a = 0
  · rw [ha, blsmsk_setWidth_zero, blsmsk_zero]
    apply BitVec.eq_of_getLsbD_eq
    intro i hi
    rw [BitVec.getLsbD_setWidth, BitVec.getLsbD_allOnes, BitVec.getLsbD_allOnes,
      decide_eq_true hi, decide_eq_true (Nat.lt_of_lt_of_le hi hle)]
    rfl
  · exact (LowPart.of_toNat_eq (toNat_blsmsk_setWidth hle ha)).eq_setWidth

/-- Only the mask of zero reaches above the narrow word. -/
theorem toNat_blsmsk_setWidth_lt_iff (hlt : v < w) (a : BitVec v) :
    (blsmsk (a.setWidth w)).1.toNat < 2 ^ v ↔ a ≠ 0 := by
  constructor
  · rintro hfits rfl
    have hpow : 2 ^ v < 2 ^ w := Nat.pow_lt_pow_right Nat.one_lt_two hlt
    rw [blsmsk_setWidth_zero, BitVec.toNat_allOnes] at hfits
    omega
  · intro ha
    rw [toNat_blsmsk_setWidth (Nat.le_of_lt hlt) ha]
    exact (blsmsk a).1.isLt

/-! ## Extraction and deposit -/

/-- A mask selects nothing above the narrow word, so nothing there adds to a sum over selected places. -/
theorem sum_selected_of_le (hle : v ≤ w) {mask : Nat} (hmask : mask < 2 ^ v) (on : Nat → Bool)
    (value : Nat → Nat) :
    (∑ place ∈ Finset.range w, if mask.testBit place && on place then value place else 0) =
      ∑ place ∈ Finset.range v, if mask.testBit place && on place then value place else 0 := by
  refine (Finset.sum_subset (Finset.range_mono hle) fun place _ hplace ↦ ?_).symm
  have habove : v ≤ place := Nat.le_of_not_lt fun hlow ↦ hplace (Finset.mem_range.mpr hlow)
  have hclear : mask.testBit place = false :=
    Nat.testBit_lt_two_pow (Nat.lt_of_lt_of_le hmask (Nat.pow_le_pow_right Nat.two_pos habove))
  rw [hclear, Bool.false_and, if_neg Bool.false_ne_true]

theorem toNat_pext_setWidth (hle : v ≤ w) (a b : BitVec v) :
    (pext (a.setWidth w) (b.setWidth w)).toNat = (pext a b).toNat := by
  rw [toNat_pext, toNat_pext, BitVec.toNat_setWidth_of_le hle, BitVec.toNat_setWidth_of_le hle]
  exact sum_selected_of_le hle b.isLt _ _

theorem toNat_pdep_setWidth (hle : v ≤ w) (a b : BitVec v) :
    (pdep (a.setWidth w) (b.setWidth w)).toNat = (pdep a b).toNat := by
  rw [toNat_pdep, toNat_pdep, BitVec.toNat_setWidth_of_le hle, BitVec.toNat_setWidth_of_le hle]
  exact sum_selected_of_le hle b.isLt _ _

/-! ## The two widths of the processor -/

/-- At 32 bits every operation on masks and ranges gives the low half of what it gives at 64 bits on the
zero-extended operands, and the upper half is empty unless the mask up to the lowest bit of zero was asked for.
Wherever zero and carry are reported they are reported alike, but for the carry of clearing from a place
between 32 and 64. -/
theorem narrow_operations (a b : BitVec 32) :
    (LowPart (andn a b).1 (andn (a.setWidth 64) (b.setWidth 64)).1 ∧
      LowPart (blsr a).1 (blsr (a.setWidth 64)).1 ∧
      LowPart (blsi a).1 (blsi (a.setWidth 64)).1 ∧
      LowPart (bzhi a b).1 (bzhi (a.setWidth 64) (b.setWidth 64)).1 ∧
      LowPart (bextr a b).1 (bextr (a.setWidth 64) (b.setWidth 64)).1 ∧
      LowPart (pext a b) (pext (a.setWidth 64) (b.setWidth 64)) ∧
      LowPart (pdep a b) (pdep (a.setWidth 64) (b.setWidth 64))) ∧
    ((blsmsk a).1 = (blsmsk (a.setWidth 64)).1.setWidth 32 ∧
      ((blsmsk (a.setWidth 64)).1.toNat < 2 ^ 32 ↔ a ≠ 0)) ∧
    (AgreeAt zeroFlag (andn a b).2 (andn (a.setWidth 64) (b.setWidth 64)).2 ∧
      AgreeAt zeroFlag (blsr a).2 (blsr (a.setWidth 64)).2 ∧
      AgreeAt zeroFlag (blsmsk a).2 (blsmsk (a.setWidth 64)).2 ∧
      AgreeAt zeroFlag (blsi a).2 (blsi (a.setWidth 64)).2 ∧
      AgreeAt zeroFlag (bzhi a b).2 (bzhi (a.setWidth 64) (b.setWidth 64)).2 ∧
      AgreeAt zeroFlag (bextr a b).2 (bextr (a.setWidth 64) (b.setWidth 64)).2) ∧
    (AgreeAt carryFlag (andn a b).2 (andn (a.setWidth 64) (b.setWidth 64)).2 ∧
      AgreeAt carryFlag (blsr a).2 (blsr (a.setWidth 64)).2 ∧
      AgreeAt carryFlag (blsmsk a).2 (blsmsk (a.setWidth 64)).2 ∧
      AgreeAt carryFlag (blsi a).2 (blsi (a.setWidth 64)).2 ∧
      AgreeAt carryFlag (bextr a b).2 (bextr (a.setWidth 64) (b.setWidth 64)).2) ∧
    (AgreeAt carryFlag (bzhi a b).2 (bzhi (a.setWidth 64) (b.setWidth 64)).2 ↔
      b.toNat % 256 < 32 ∨ 64 ≤ b.toNat % 256) := by
  have hle : 32 ≤ 64 := by decide
  have hlt : 32 < 64 := by decide
  have handn := toNat_andn_setWidth hle a b
  have hblsr := toNat_blsr_setWidth hle a
  have hblsi := toNat_blsi_setWidth hle a
  have hbzhi := toNat_bzhi_setWidth hle a b
  have hbextr := toNat_bextr_setWidth hle a b
  have hsource : (a.setWidth 64 == 0) = (a == 0) :=
    beq_zero_of_toNat_eq (BitVec.toNat_setWidth_of_le hle)
  refine ⟨⟨.of_toNat_eq handn, .of_toNat_eq hblsr, .of_toNat_eq hblsi, .of_toNat_eq hbzhi,
      .of_toNat_eq hbextr, .of_toNat_eq (toNat_pext_setWidth hle a b),
      .of_toNat_eq (toNat_pdep_setWidth hle a b)⟩,
    ⟨blsmsk_eq_setWidth hle a, toNat_blsmsk_setWidth_lt_iff hlt a⟩, ⟨?_, ?_, ?_, ?_, ?_, ?_⟩,
    ⟨?_, ?_, ?_, ?_, ?_⟩, agreeAt_carry_bzhi_iff hle a b⟩
  · exact (agreeAt_iff (written?_andn _ _ _) (written?_andn _ _ _)).mpr (beq_zero_of_toNat_eq handn)
  · exact (agreeAt_iff (written?_blsr _ _) (written?_blsr _ _)).mpr (beq_zero_of_toNat_eq hblsr)
  · exact (agreeAt_iff (written?_blsmsk _ _) (written?_blsmsk _ _)).mpr rfl
  · exact (agreeAt_iff (written?_blsi _ _) (written?_blsi _ _)).mpr (beq_zero_of_toNat_eq hblsi)
  · exact (agreeAt_iff (written?_bzhi _ _ _) (written?_bzhi _ _ _)).mpr (beq_zero_of_toNat_eq hbzhi)
  · exact (agreeAt_iff (written?_bextr _ _ _) (written?_bextr _ _ _)).mpr
      (beq_zero_of_toNat_eq hbextr)
  · exact (agreeAt_iff (written?_andn _ _ _) (written?_andn _ _ _)).mpr rfl
  · exact (agreeAt_iff (written?_blsr _ _) (written?_blsr _ _)).mpr hsource
  · exact (agreeAt_iff (written?_blsmsk _ _) (written?_blsmsk _ _)).mpr hsource
  · exact (agreeAt_iff (written?_blsi _ _) (written?_blsi _ _)).mpr (congrArg Bool.not hsource)
  · exact (agreeAt_iff (written?_bextr _ _ _) (written?_bextr _ _ _)).mpr rfl

end TrapEmulation.BitManip
