import TrapEmulation.BitManip.Gather
import TrapEmulation.Proofs.Reference.BitManip

/-!
# Gathering and scattering by rank

The engine walks through the selected places in order and counts them.  The count at a place is its
rank, so what it has put together after the places below `n` is a sum over those places.
-/

open scoped BigOperators

namespace TrapEmulation.BitManip

open Reference

variable {w : Nat}

/-! ## One more place -/

theorem gather_concat (x : BitVec w) (places : List Nat) (last start : Nat) :
    gather x (places ++ [last]) start =
      gather x places start |||
        (if x.getLsbD last then BitVec.twoPow w (start + places.length) else 0) := by
  induction places generalizing start with
  | nil =>
    change (if x.getLsbD last then BitVec.twoPow w start else 0) ||| 0#w = 0#w ||| _
    rw [BitVec.or_zero, BitVec.zero_or]
    rfl
  | cons place places ih =>
    have hstart : start + 1 + places.length = start + (place :: places).length := by
      rw [List.length_cons]
      omega
    rw [List.cons_append, gather, gather, ih (start + 1), hstart, BitVec.or_assoc]

theorem scatter_concat (x : BitVec w) (places : List Nat) (last start : Nat) :
    scatter x (places ++ [last]) start =
      scatter x places start |||
        (if x.getLsbD (start + places.length) then BitVec.twoPow w last else 0) := by
  induction places generalizing start with
  | nil =>
    change (if x.getLsbD start then BitVec.twoPow w last else 0) ||| 0#w = 0#w ||| _
    rw [BitVec.or_zero, BitVec.zero_or]
    rfl
  | cons place places ih =>
    have hstart : start + 1 + places.length = start + (place :: places).length := by
      rw [List.length_cons]
      omega
    rw [List.cons_append, scatter, scatter, ih (start + 1), hstart, BitVec.or_assoc]

/-- The selected places below a bound, in order. -/
def placesBelow (mask : BitVec w) (bound : Nat) : List Nat :=
  (List.range bound).filter fun place ↦ mask.getLsbD place

theorem placesBelow_succ (mask : BitVec w) (bound : Nat) :
    placesBelow mask (bound + 1) =
      if mask.getLsbD bound then placesBelow mask bound ++ [bound] else placesBelow mask bound := by
  unfold placesBelow
  rw [List.range_succ, List.filter_append, List.filter_singleton]
  cases mask.getLsbD bound
  · exact List.append_nil _
  · rfl

theorem rank_succ (mask bound : Nat) :
    rank mask (bound + 1) = if mask.testBit bound then rank mask bound + 1 else rank mask bound := by
  unfold rank
  rw [Finset.range_add_one, Finset.filter_insert]
  split
  · rw [Finset.card_insert_of_notMem]
    simp
  · rfl

theorem length_placesBelow (mask : BitVec w) (bound : Nat) :
    (placesBelow mask bound).length = rank mask.toNat bound := by
  induction bound with
  | zero => rfl
  | succ bound ih =>
    rw [placesBelow_succ, rank_succ, BitVec.testBit_toNat]
    split
    · rw [List.length_append, ih]
      rfl
    · exact ih

theorem rank_le (mask bound : Nat) : rank mask bound ≤ bound := by
  have hcard := Finset.card_filter_le (Finset.range bound) fun i ↦ mask.testBit i
  rwa [Finset.card_range] at hcard

/-! ## Sums -/

/-- A power of two above everything so far is added by setting its bit. -/
theorem or_two_pow {low place : Nat} (hlow : low < 2 ^ place) (on : Bool) :
    low ||| (if on then 2 ^ place else 0) = low + (if on then 2 ^ place else 0) := by
  cases on with
  | false => exact Nat.or_zero low
  | true =>
    have hsum := Nat.two_pow_add_eq_or_of_lt hlow 1
    rw [Nat.mul_one] at hsum
    rw [if_pos rfl, Nat.or_comm, ← hsum, Nat.add_comm]

theorem toNat_ite_twoPow {place : Nat} (hplace : place < w) (on : Bool) :
    (if on then BitVec.twoPow w place else 0).toNat = if on then 2 ^ place else 0 := by
  cases on with
  | false => rfl
  | true => exact BitVec.toNat_twoPow_of_lt hplace

theorem add_ite_lt {low place : Nat} (hlow : low < 2 ^ place) (on : Bool) :
    low + (if on then 2 ^ place else 0) < 2 ^ (place + 1) := by
  rw [Nat.pow_succ]
  cases on
  · rw [if_neg Bool.false_ne_true]
    omega
  · rw [if_pos rfl]
    omega

/-- The part of the sum for extraction that comes from the places below a bound. -/
def extractBelow (x mask bound : Nat) : Nat :=
  ∑ place ∈ Finset.range bound,
    if mask.testBit place && x.testBit place then 2 ^ rank mask place else 0

/-- The part of the sum for depositing that comes from the places below a bound. -/
def depositBelow (x mask bound : Nat) : Nat :=
  ∑ place ∈ Finset.range bound,
    if mask.testBit place && x.testBit (rank mask place) then 2 ^ place else 0

theorem extractBelow_lt (x mask bound : Nat) : extractBelow x mask bound < 2 ^ rank mask bound := by
  induction bound with
  | zero => exact Nat.one_pos
  | succ bound ih =>
    rw [extractBelow, Finset.sum_range_succ, ← extractBelow, rank_succ]
    cases hmask : mask.testBit bound with
    | false => simpa using ih
    | true => exact add_ite_lt ih (x.testBit bound)

theorem depositBelow_lt (x mask bound : Nat) : depositBelow x mask bound < 2 ^ bound := by
  induction bound with
  | zero => exact Nat.one_pos
  | succ bound ih =>
    rw [depositBelow, Finset.sum_range_succ, ← depositBelow]
    exact add_ite_lt ih _

/-! ## The walk -/

/-- Gathering the places below a bound gives the sum over them. -/
theorem toNat_gather (x mask : BitVec w) {bound : Nat} (hbound : bound ≤ w) :
    (gather x (placesBelow mask bound) 0).toNat = extractBelow x.toNat mask.toNat bound := by
  induction bound with
  | zero => rfl
  | succ bound ih =>
    have hbelow := ih (Nat.le_of_succ_le hbound)
    have hplace : rank mask.toNat bound < w :=
      Nat.lt_of_le_of_lt (rank_le mask.toNat bound) (Nat.lt_of_succ_le hbound)
    rw [placesBelow_succ, extractBelow, Finset.sum_range_succ, ← extractBelow,
      BitVec.testBit_toNat, BitVec.testBit_toNat]
    cases hmask : mask.getLsbD bound with
    | false => simpa using hbelow
    | true =>
      rw [if_pos rfl, Bool.true_and]
      calc
        (gather x (placesBelow mask bound ++ [bound]) 0).toNat =
            (gather x (placesBelow mask bound) 0).toNat |||
              (if x.getLsbD bound then BitVec.twoPow w (rank mask.toNat bound) else 0).toNat := by
          rw [gather_concat, BitVec.toNat_or, Nat.zero_add, length_placesBelow]
        _ = extractBelow x.toNat mask.toNat bound |||
              if x.getLsbD bound then 2 ^ rank mask.toNat bound else 0 := by
          rw [hbelow, toNat_ite_twoPow hplace]
        _ = extractBelow x.toNat mask.toNat bound +
              if x.getLsbD bound then 2 ^ rank mask.toNat bound else 0 :=
          or_two_pow (extractBelow_lt _ _ _) _

/-- Scattering over the places below a bound gives the sum over them. -/
theorem toNat_scatter (x mask : BitVec w) {bound : Nat} (hbound : bound ≤ w) :
    (scatter x (placesBelow mask bound) 0).toNat = depositBelow x.toNat mask.toNat bound := by
  induction bound with
  | zero => rfl
  | succ bound ih =>
    have hbelow := ih (Nat.le_of_succ_le hbound)
    have hplace : bound < w := Nat.lt_of_succ_le hbound
    rw [placesBelow_succ, depositBelow, Finset.sum_range_succ, ← depositBelow,
      BitVec.testBit_toNat, BitVec.testBit_toNat]
    cases hmask : mask.getLsbD bound with
    | false => simpa using hbelow
    | true =>
      rw [if_pos rfl, Bool.true_and]
      calc
        (scatter x (placesBelow mask bound ++ [bound]) 0).toNat =
            (scatter x (placesBelow mask bound) 0).toNat |||
              (if x.getLsbD (rank mask.toNat bound) then BitVec.twoPow w bound else 0).toNat := by
          rw [scatter_concat, BitVec.toNat_or, Nat.zero_add, length_placesBelow]
        _ = depositBelow x.toNat mask.toNat bound |||
              if x.getLsbD (rank mask.toNat bound) then 2 ^ bound else 0 := by
          rw [hbelow, toNat_ite_twoPow hplace]
        _ = depositBelow x.toNat mask.toNat bound +
              if x.getLsbD (rank mask.toNat bound) then 2 ^ bound else 0 :=
          or_two_pow (depositBelow_lt _ _ _) _

theorem toNat_pext (x mask : BitVec w) : (pext x mask).toNat = extract w x.toNat mask.toNat :=
  toNat_gather x mask (Nat.le_refl w)

theorem toNat_pdep (x mask : BitVec w) : (pdep x mask).toNat = deposit w x.toNat mask.toNat :=
  toNat_scatter x mask (Nat.le_refl w)

end TrapEmulation.BitManip
