import Mathlib.Data.Nat.Nth
import Mathlib.Data.Set.Function
import TrapEmulation.Proofs.BitManip.Gather

/-!
# Selected bits

Extraction and deposit are described here bit by bit: bit `k` of one word and the `k`-th selected place of the
other belong together.  From this it follows that the two undo each other on the words that a mask leaves room
for.
-/

namespace TrapEmulation.BitManip

open Reference

variable {w : Nat}

/-! ## Places and their numbers -/

/-- The mask selects the place. -/
def Selects (mask : BitVec w) (place : Nat) : Prop := mask.getLsbD place = true

instance (mask : BitVec w) : DecidablePred (Selects mask) := fun _ ↦
  inferInstanceAs (Decidable (_ = true))

/-- The number of places that a mask selects. -/
def population (mask : BitVec w) : Nat := Nat.count (Selects mask) w

theorem rank_eq_count (mask : BitVec w) (place : Nat) :
    rank mask.toNat place = Nat.count (Selects mask) place := by
  rw [rank, Nat.count_eq_card_filter_range]
  rfl

theorem Selects.lt {mask : BitVec w} {place : Nat} (h : Selects mask place) : place < w :=
  BitVec.lt_of_getLsbD h

theorem Selects.count_lt {mask : BitVec w} {place : Nat} (h : Selects mask place) :
    Nat.count (Selects mask) place < population mask := Nat.count_strict_mono h h.lt

/-- Every number below the population is the number of some selected place. -/
theorem selects_nth {mask : BitVec w} {k : Nat} (hk : k < population mask) :
    Selects mask (Nat.nth (Selects mask) k) :=
  Nat.nth_mem k fun hfinite ↦ Nat.lt_of_lt_of_le hk (Nat.count_le_card hfinite w)

theorem count_nth_selects {mask : BitVec w} {k : Nat} (hk : k < population mask) :
    Nat.count (Selects mask) (Nat.nth (Selects mask) k) = k :=
  Nat.count_nth fun hfinite ↦ Nat.lt_of_lt_of_le hk (Nat.count_le_card hfinite w)

/-! ## Bits of the results -/

theorem getLsbD_ite_twoPow {place : Nat} (hplace : place < w) (on : Bool) (k : Nat) :
    (if on then BitVec.twoPow w place else 0).getLsbD k = (on && decide (place = k)) := by
  cases on with
  | false => exact BitVec.getLsbD_zero
  | true =>
    rw [if_pos rfl, BitVec.getLsbD_twoPow, decide_eq_true hplace]

/-- What has been gathered from the places below a bound is final: each of its bits comes from the place of
that number. -/
theorem getLsbD_gather (x mask : BitVec w) {bound : Nat} (hbound : bound ≤ w) (k : Nat) :
    (gather x (placesBelow mask bound) 0).getLsbD k =
      (decide (k < Nat.count (Selects mask) bound) && x.getLsbD (Nat.nth (Selects mask) k)) := by
  induction bound with
  | zero => exact BitVec.getLsbD_zero
  | succ bound ih =>
    have hbelow := ih (Nat.le_of_succ_le hbound)
    rw [Nat.count_succ, placesBelow_succ]
    by_cases hmask : mask.getLsbD bound = true
    · have hselects : Selects mask bound := hmask
      have hcount : Nat.count (Selects mask) bound < w :=
        Nat.lt_of_le_of_lt (Nat.count_le _) (Nat.lt_of_succ_le hbound)
      rw [if_pos hselects, if_pos hmask, gather_concat, BitVec.getLsbD_or, hbelow, Nat.zero_add,
        length_placesBelow, rank_eq_count, getLsbD_ite_twoPow hcount]
      by_cases hk : k = Nat.count (Selects mask) bound
      · simp [hk, Nat.nth_count hselects]
      · have hlt : k < Nat.count (Selects mask) bound + 1 ↔ k < Nat.count (Selects mask) bound := by
          omega
        simp [hlt, Ne.symm hk]
    · have hselects : ¬ Selects mask bound := hmask
      rw [if_neg hselects, if_neg hmask, hbelow, Nat.add_zero]

/-- What has been scattered over the places below a bound is final. -/
theorem getLsbD_scatter (x mask : BitVec w) {bound : Nat} (hbound : bound ≤ w) (i : Nat) :
    (scatter x (placesBelow mask bound) 0).getLsbD i =
      (decide (i < bound) && (mask.getLsbD i && x.getLsbD (Nat.count (Selects mask) i))) := by
  induction bound with
  | zero => exact BitVec.getLsbD_zero
  | succ bound ih =>
    have hbelow := ih (Nat.le_of_succ_le hbound)
    rw [placesBelow_succ]
    cases hmask : mask.getLsbD bound with
    | true =>
      rw [if_pos rfl, scatter_concat, BitVec.getLsbD_or, hbelow, Nat.zero_add, length_placesBelow,
        rank_eq_count, getLsbD_ite_twoPow (Nat.lt_of_succ_le hbound)]
      by_cases hi : i = bound
      · simp [hi, hmask]
      · have hlt : i < bound + 1 ↔ i < bound := by omega
        simp [hlt, Ne.symm hi]
    | false =>
      rw [if_neg Bool.false_ne_true, hbelow]
      by_cases hi : i = bound
      · simp [hi, hmask]
      · have hlt : i < bound + 1 ↔ i < bound := by omega
        rw [decide_eq_decide.mpr hlt]

theorem getLsbD_pext (x mask : BitVec w) (k : Nat) :
    (pext x mask).getLsbD k =
      (decide (k < population mask) && x.getLsbD (Nat.nth (Selects mask) k)) :=
  getLsbD_gather x mask (Nat.le_refl w) k

theorem getLsbD_pdep (x mask : BitVec w) (i : Nat) :
    (pdep x mask).getLsbD i = (mask.getLsbD i && x.getLsbD (Nat.count (Selects mask) i)) := by
  have hbits : (pdep x mask).getLsbD i =
      (decide (i < w) && (mask.getLsbD i && x.getLsbD (Nat.count (Selects mask) i))) :=
    getLsbD_scatter x mask (Nat.le_refl w) i
  rw [hbits]
  cases hmask : mask.getLsbD i with
  | false => rw [Bool.false_and, Bool.and_false]
  | true => rw [decide_eq_true (Selects.lt hmask), Bool.true_and]

/-- Bit `k` of what is extracted is the bit at the `k`-th selected place, and beyond the number of selected
places there is none.  A selected place receives the bit that is numbered by how many selected places lie
below it, and any other place receives none. -/
theorem extract_deposit_bitwise (x mask : BitVec w) :
    (∀ k < population mask, (pext x mask).getLsbD k = x.getLsbD (Nat.nth (Selects mask) k)) ∧
    (∀ k, population mask ≤ k → (pext x mask).getLsbD k = false) ∧
    ∀ i, (pdep x mask).getLsbD i =
      (mask.getLsbD i && x.getLsbD (Nat.count (Selects mask) i)) := by
  refine ⟨fun k hk ↦ ?_, fun k hk ↦ ?_, getLsbD_pdep x mask⟩
  · rw [getLsbD_pext, decide_eq_true hk, Bool.true_and]
  · rw [getLsbD_pext, decide_eq_false (Nat.not_lt.mpr hk), Bool.false_and]

/-! ## Round trips -/

/-- Depositing and extracting again leaves the bits that the mask has room for. -/
theorem toNat_pext_pdep (v mask : BitVec w) :
    (pext (pdep v mask) mask).toNat = v.toNat % 2 ^ population mask := by
  apply Nat.eq_of_testBit_eq
  intro k
  rw [BitVec.testBit_toNat, getLsbD_pext, getLsbD_pdep, Nat.testBit_mod_two_pow, BitVec.testBit_toNat]
  by_cases hk : k < population mask
  · have hselects : mask.getLsbD (Nat.nth (Selects mask) k) = true := selects_nth hk
    rw [hselects, count_nth_selects hk, Bool.true_and]
  · rw [decide_eq_false hk, Bool.false_and, Bool.false_and]

/-- A word that fits comes back as it was. -/
theorem pext_pdep_of_lt {v mask : BitVec w} (h : v.toNat < 2 ^ population mask) :
    pext (pdep v mask) mask = v := by
  apply BitVec.eq_of_toNat_eq
  rw [toNat_pext_pdep, Nat.mod_eq_of_lt h]

/-- Extracting and depositing again leaves the bits at the selected places. -/
theorem pdep_pext (x mask : BitVec w) : pdep (pext x mask) mask = x &&& mask := by
  apply BitVec.eq_of_getLsbD_eq
  intro i _
  rw [getLsbD_pdep, getLsbD_pext, BitVec.getLsbD_and]
  by_cases hmask : Selects mask i
  · rw [decide_eq_true hmask.count_lt, Nat.nth_count hmask, Bool.true_and, Bool.and_comm]
  · have hclear : mask.getLsbD i = false := Bool.eq_false_of_not_eq_true hmask
    rw [hclear, Bool.false_and, Bool.and_false]

theorem toNat_pext_lt (x mask : BitVec w) : (pext x mask).toNat < 2 ^ population mask := by
  rw [toNat_pext, population, ← rank_eq_count]
  exact extractBelow_lt _ _ _

/-- What is deposited lies within the mask. -/
theorem pdep_and_mask (v mask : BitVec w) : pdep v mask &&& mask = pdep v mask := by
  apply BitVec.eq_of_getLsbD_eq
  intro i _
  rw [BitVec.getLsbD_and, getLsbD_pdep]
  cases mask.getLsbD i with
  | false => rfl
  | true => rw [Bool.and_true]

/-- Extraction undoes depositing on the bits that the mask has room for, and depositing undoes extraction on
the selected places.  So under one mask the two are inverse bijections between the words that fit the mask and
those that lie within it. -/
theorem extract_deposit_inverse (mask : BitVec w) :
    (∀ v, (pext (pdep v mask) mask).toNat = v.toNat % 2 ^ population mask) ∧
    (population mask = w → ∀ v, pext (pdep v mask) mask = v) ∧
    (∀ x, pdep (pext x mask) mask = x &&& mask) ∧
    Set.BijOn (fun v ↦ pdep v mask) {v | v.toNat < 2 ^ population mask} {x | x &&& mask = x} ∧
    Set.BijOn (fun x ↦ pext x mask) {x | x &&& mask = x} {v | v.toNat < 2 ^ population mask} ∧
    Set.InvOn (fun x ↦ pext x mask) (fun v ↦ pdep v mask) {v | v.toNat < 2 ^ population mask}
      {x | x &&& mask = x} := by
  have hinverse : Set.InvOn (fun x ↦ pext x mask) (fun v ↦ pdep v mask)
      {v | v.toNat < 2 ^ population mask} {x | x &&& mask = x} :=
    ⟨fun v hv ↦ pext_pdep_of_lt hv, fun x hx ↦ (pdep_pext x mask).trans hx⟩
  have hdeposit : Set.MapsTo (fun v ↦ pdep v mask) {v | v.toNat < 2 ^ population mask}
      {x | x &&& mask = x} := fun v _ ↦ pdep_and_mask v mask
  have hextract : Set.MapsTo (fun x ↦ pext x mask) {x | x &&& mask = x}
      {v | v.toNat < 2 ^ population mask} := fun x _ ↦ toNat_pext_lt x mask
  refine ⟨fun v ↦ toNat_pext_pdep v mask, fun hfull v ↦ pext_pdep_of_lt ?_,
    fun x ↦ pdep_pext x mask, hinverse.bijOn hdeposit hextract,
    hinverse.symm.bijOn hextract hdeposit, hinverse⟩
  rw [hfull]
  exact v.isLt

end TrapEmulation.BitManip
