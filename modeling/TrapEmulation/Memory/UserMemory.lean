import TrapEmulation.Bytes
import TrapEmulation.Mode
import TrapEmulation.Text.Hex

/-!
# User memory

The memory of the faulting thread can be read, and a read of a range either gives all of its bytes
or a fault. Reading may change the state of the memory, so it gives back the state it leaves.
Instructions are fetched byte by byte: one that ends just before inaccessible memory is still
readable.
-/

namespace TrapEmulation

/-- A range that could not be read, named by the address asked for. -/
structure MemoryFault where
  address : Address
  deriving DecidableEq, Repr

def MemoryFault.message (fault : MemoryFault) : String :=
  "user memory fault at " ++ hexText fault.address.toNat

/-- Memory whose state is `σ`. -/
class UserMemory (σ : Type) where
  /-- Reads `count` bytes from `address` upwards. -/
  read : (memory : σ) → (address : Address) → (count : Nat) →
    Except MemoryFault (Vector Byte count) × σ

namespace UserMemory

variable {σ : Type} [UserMemory σ]

/-- Reads a value of `count` bytes, least significant byte first. -/
def readWord (memory : σ) (address : Address) (count : Nat) :
    Except MemoryFault (BitVec (8 * count)) × σ :=
  match read memory address count with
  | (.ok bytes, memory) => (.ok (BitVec.ofNat _ (decodeLE bytes.toList)), memory)
  | (.error fault, memory) => (.error fault, memory)

/-- The bytes at `start`, `start + 1`, … under the address mask, at most `count` of them and up to
the first that cannot be read. It is a fault if that is the one at `start`. -/
def fetch (mask : Address) : σ → Address → Nat → Except MemoryFault (List Byte) × σ
  | memory, _, 0 => (.ok [], memory)
  | memory, start, count + 1 =>
    match read memory (start &&& mask) 1 with
    | (.error fault, memory) => (.error fault, memory)
    | (.ok byte, memory) =>
      match fetch mask memory (start + 1) count with
      | (.ok rest, memory) => (.ok (byte[0] :: rest), memory)
      | (.error _, memory) => (.ok [byte[0]], memory)

end UserMemory

end TrapEmulation
