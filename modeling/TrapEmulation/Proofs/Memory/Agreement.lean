import TrapEmulation.Proofs.Memory.ReadableRun

/-!
# Memories that answer alike

Two memories may hold different things and still answer a read in the same way.  The bytes that are fetched
from one of them are fetched from the other as well, if it answers alike wherever one of these bytes stands.
Fetching stops in front of the first byte that cannot be read, whatever stands behind it.
-/

namespace TrapEmulation.UserMemory

variable {σ τ : Type} [UserMemory σ] [UserMemory τ]

/-- A read gives the same bytes in both memories, or the same fault. -/
def AnswersAlike (memory : σ) (other : τ) (address : Address) (count : Nat) : Prop :=
  (read memory address count).1 = (read other address count).1

/-- A word is read exactly where its bytes are. -/
theorem readWord_fst (memory : σ) (address : Address) (count : Nat) :
    (readWord memory address count).1 =
      (read memory address count).1.map fun bytes ↦ BitVec.ofNat _ (decodeLE bytes.toList) := by
  rw [readWord]
  cases read memory address count with
  | mk answer after =>
    cases answer with
    | ok bytes => rfl
    | error fault => rfl

theorem AnswersAlike.readWord {memory : σ} {other : τ} {address : Address} {count : Nat}
    (halike : AnswersAlike memory other address count) :
    (readWord memory address count).1 = (readWord other address count).1 := by
  rw [AnswersAlike] at halike
  rw [readWord_fst, readWord_fst, halike]

/-! ## Fetched bytes -/

/-- A byte of the memory, at a word that stands for its address. -/
theorem read_and_mask {mode : Mode} (memory : σ) {address : Address} {start : Nat}
    (haddress : address.toNat % 2 ^ mode.width = start % 2 ^ mode.width) (k : Nat) :
    read memory ((address + BitVec.ofNat 64 k) &&& mode.mask) 1 =
      read memory (BitVec.ofNat 64 ((start + k) % 2 ^ mode.width)) 1 := by
  rw [and_mask_eq (toNat_add_mod haddress k)]

/-- In memory that reading does not change, the bytes that are fetched stand at the addresses fetched from. -/
theorem Pure.holds_of_fetch {mode : Mode} {memory : σ} (hpure : Pure memory) {address : Address}
    {start count : Nat} {bytes : List Byte}
    (hfetch : (UserMemory.fetch mode.mask memory address count).1 = .ok bytes)
    (haddress : address.toNat % 2 ^ mode.width = start % 2 ^ mode.width) :
    Holds mode memory start bytes := by
  have hrun := hpure.isReadableRun_fetch mode.mask address count
  rw [hfetch] at hrun
  intro k hk
  rw [← read_and_mask memory haddress k]
  exact hrun.answer_eq k hk

/-- Another memory holds the same bytes if it answers alike where they stand. -/
theorem Holds.transfer {mode : Mode} {memory : σ} {other : τ} {start : Nat} {bytes : List Byte}
    (hholds : Holds mode memory start bytes)
    (halike : ∀ k < bytes.length,
      AnswersAlike memory other (BitVec.ofNat 64 ((start + k) % 2 ^ mode.width)) 1) :
    Holds mode other start bytes := by
  intro k hk
  exact (halike k hk).symm.trans (hholds k hk)

/-! ## Bytes that cannot be read -/

/-- If the byte behind the given ones cannot be read, exactly these are fetched.  It is a fault if there are
none. -/
theorem Holds.fetch_eq {mode : Mode} {memory : σ} (hpure : Pure memory) {address : Address} {start : Nat}
    {bytes : List Byte} {fault : MemoryFault} (hholds : Holds mode memory start bytes)
    (hend : (read memory (BitVec.ofNat 64 ((start + bytes.length) % 2 ^ mode.width)) 1).1 = .error fault)
    (haddress : address.toNat % 2 ^ mode.width = start % 2 ^ mode.width) {count : Nat}
    (hcount : bytes.length < count) :
    (fetch mode.mask memory address count).1 = if bytes = [] then .error fault else .ok bytes := by
  obtain ⟨count, rfl⟩ := Nat.exists_eq_succ_of_ne_zero (Nat.ne_of_gt (Nat.zero_lt_of_lt hcount))
  by_cases hnil : bytes = []
  · have hzero : address + BitVec.ofNat 64 0 = address := BitVec.add_zero address
    rw [hnil, List.length_nil, ← read_and_mask memory haddress, hzero] at hend
    rw [if_pos hnil]
    exact (hpure.fetch_eq_error_iff mode.mask address count fault).mpr hend
  · rw [if_neg hnil, hpure.fetch_eq_ok_iff]
    refine ⟨hnil, ⟨.inr ⟨fault, ?_⟩, fun i hi ↦ ?_⟩, fun i hi ↦ ?_⟩
    · rwa [read_and_mask memory haddress]
    · -- A byte that stands in memory is not one at which fetching ends.
      by_contra hshort
      have hread := hholds i (Nat.not_le.mp hshort)
      rcases hi with rfl | ⟨other, hother⟩
      · exact hshort (Nat.le_of_lt hcount)
      · rw [read_and_mask memory haddress, hread] at hother
        cases hother
    · rw [read_and_mask memory haddress]
      exact hholds i hi

end TrapEmulation.UserMemory
