import TrapEmulation.Decode.Reader
import TrapEmulation.Memory.UserMemory
import TrapEmulation.Proofs.Checked.Registers

/-!
# Checked fetching

The bytes of an instruction are read one by one into a buffer that holds the longest instruction, and
the bytes that could be read are taken from its front.
-/

namespace TrapEmulation.Checked

variable {σ : Type} [UserMemory σ]

/-- Reads the bytes from place `i` of the buffer onwards, up to the first that cannot be read, and
counts those that are there. -/
def fillFrom (mask start : Address) (i : Nat) : Nat → σ → Vector Byte maxInstructionLength →
    Run (Except MemoryFault (Nat × Vector Byte maxInstructionLength) × σ)
  | 0, memory, buffer => return (.ok (i, buffer), memory)
  | remaining + 1, memory, buffer => do
    let next ← add i 1
    let _ ← slice buffer i next
    match UserMemory.read memory ((start + BitVec.ofNat 64 i) &&& mask) 1 with
    | (.error fault, memory) =>
      if i = 0 then return (.error fault, memory) else return (.ok (i, buffer), memory)
    | (.ok byte, memory) => do
      let buffer ← set buffer i byte.head
      fillFrom mask start next remaining memory buffer

/-- The bytes that were counted. -/
def filled : Except MemoryFault (Nat × Vector Byte maxInstructionLength) × σ →
    Run (Except MemoryFault (List Byte) × σ)
  | (.ok (count, buffer), memory) => do
    let bytes ← slice buffer 0 count
    return (.ok bytes, memory)
  | (.error fault, memory) => return (.error fault, memory)

/-- The bytes at the instruction pointer. -/
def fetch (regs : Registers) (memory : σ) : Run (Except MemoryFault (List Byte) × σ) := do
  let start ← ip regs
  let mask ← maskBits regs.mode.width
  let buffer ← fillFrom mask start 0 maxInstructionLength memory (Vector.replicate _ 0)
  filled buffer

theorem take_set (buffer : Vector Byte maxInstructionLength) {i : Nat} (h : i < maxInstructionLength)
    (byte : Byte) :
    (buffer.set i byte).toList.take (i + 1) = buffer.toList.take i ++ [byte] := by
  have hlength : i < (buffer.toList.set i byte).length := by
    rwa [List.length_set, Vector.length_toList]
  rw [Vector.toList_set, List.take_succ_eq_append_getElem hlength, List.getElem_set_self,
    List.take_set_of_le (Nat.le_refl i)]

/-- The bytes in front of place `i` stay as they are, and those that can be read come after them. -/
theorem filled_fillFrom (mask start : Address) {i remaining : Nat}
    (h : i + remaining = maxInstructionLength) (memory : σ)
    (buffer : Vector Byte maxInstructionLength) :
    (fillFrom mask start i remaining memory buffer >>= filled) =
      match UserMemory.fetch mask memory (start + BitVec.ofNat 64 i) remaining with
      | (.ok rest, memory) => pure (.ok (buffer.toList.take i ++ rest), memory)
      | (.error fault, memory) =>
        pure (if i = 0 then .error fault else .ok (buffer.toList.take i), memory) := by
  induction remaining generalizing i memory buffer with
  | zero =>
    have hroom : 0 ≤ i ∧ i ≤ maxInstructionLength := ⟨Nat.zero_le i, Nat.le_of_eq h⟩
    simp only [fillFrom, pure_bind, filled, slice, guarded_eq hroom, UserMemory.fetch, List.drop_zero,
      List.append_nil]
  | succ remaining ih =>
    have hi : i < maxInstructionLength := by omega
    have hsum : i + 1 < 2 ^ 32 := Nat.lt_of_le_of_lt hi (by decide)
    have hroom : i ≤ i + 1 ∧ i + 1 ≤ maxInstructionLength := ⟨Nat.le_succ i, hi⟩
    simp only [fillFrom, add, guarded_eq hsum, pure_bind, slice, guarded_eq hroom, UserMemory.fetch]
    cases UserMemory.read memory ((start + BitVec.ofNat 64 i) &&& mask) 1 with
    | mk answer after =>
      cases answer with
      | error fault =>
        have htaken : 0 ≤ i ∧ i ≤ maxInstructionLength := ⟨Nat.zero_le i, Nat.le_of_lt hi⟩
        by_cases hzero : i = 0
        · simp only [hzero, if_true, pure_bind, filled]
        · simp only [hzero, if_false, pure_bind, filled, slice, guarded_eq htaken, List.drop_zero]
      | ok byte =>
        have hnext : i + 1 + remaining = maxInstructionLength := by omega
        have haddress : start + BitVec.ofNat 64 i + 1 = start + BitVec.ofNat 64 (i + 1) := by
          rw [BitVec.ofNat_add, BitVec.add_assoc, BitVec.ofNat_eq_ofNat]
        simp only [set_eq buffer hi, pure_bind, ih hnext, take_set buffer hi, haddress, Vector.head]
        cases UserMemory.fetch mask after (start + BitVec.ofNat 64 (i + 1)) remaining with
        | mk later final =>
          cases later with
          | ok rest => simp only [List.append_assoc, List.singleton_append]
          | error fault => simp only [Nat.succ_ne_zero, if_false]

theorem fetch_eq (regs : Registers) (memory : σ) :
    fetch regs memory =
      pure (UserMemory.fetch regs.mode.mask memory regs.ip maxInstructionLength) := by
  have hstart : regs.ip + BitVec.ofNat 64 0 = regs.ip := BitVec.add_zero regs.ip
  rw [fetch, ip_eq_pure, pure_bind, maskBits_eq, pure_bind,
    filled_fillFrom _ _ (Nat.zero_add maxInstructionLength), hstart, ← Mode.mask]
  cases UserMemory.fetch regs.mode.mask memory regs.ip maxInstructionLength with
  | mk answer after =>
    cases answer with
    | ok bytes => rfl
    | error fault => rfl

end TrapEmulation.Checked
