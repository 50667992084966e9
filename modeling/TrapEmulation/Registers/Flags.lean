/-!
# Flags

The flags register is a 64-bit word of which seven bits are named here. An instruction writes some
of them and leaves every other bit alone, except that reserved bit 1 always reads as one.
-/

namespace TrapEmulation

inductive Flag where
  | carry
  | parity
  | adjust
  | zero
  | sign
  | direction
  | overflow
  deriving DecidableEq, Repr

namespace Flag

/-- The flag's place in the flags register. -/
def position : Flag → Nat
  | carry => 0
  | parity => 2
  | adjust => 4
  | zero => 6
  | sign => 7
  | direction => 10
  | overflow => 11

def mask (flag : Flag) : BitVec 64 := BitVec.twoPow 64 flag.position

def all : List Flag := [carry, parity, adjust, zero, sign, direction, overflow]

/-- The bits of the named flags. -/
def knownMask : BitVec 64 := all.foldl (fun bits flag ↦ bits ||| flag.mask) 0

/-- Reserved bit 1 of the flags register. -/
def reservedMask : BitVec 64 := 2

end Flag

/-- A change to some flags. Values outside the affected bits have no effect. -/
structure FlagUpdate where
  affected : BitVec 64
  values : BitVec 64
  deriving DecidableEq, Repr

namespace FlagUpdate

/-- Writes the listed flags and no others. -/
def ofList : List (Flag × Bool) → FlagUpdate
  | [] => ⟨0, 0⟩
  | (flag, on) :: rest =>
    let update := ofList rest
    ⟨flag.mask ||| update.affected, (if on then flag.mask else 0) ||| update.values⟩

/-- A change given by its bits, of which only the named flags count. -/
def ofBits (affected values : BitVec 64) : FlagUpdate :=
  ⟨affected &&& Flag.knownMask, values &&& Flag.knownMask⟩

/-- The flags register after the change. -/
def apply (update : FlagUpdate) (rflags : BitVec 64) : BitVec 64 :=
  (rflags &&& ~~~update.affected) ||| (update.values &&& update.affected) ||| Flag.reservedMask

/-- An affected bit takes its new value and any other keeps its old one. -/
theorem getLsbD_apply (update : FlagUpdate) (rflags : BitVec 64) (i : Nat) :
    (update.apply rflags).getLsbD i =
      ((bif update.affected.getLsbD i then update.values.getLsbD i else rflags.getLsbD i) ||
        Flag.reservedMask.getLsbD i) := by
  by_cases hi : i < 64
  · cases ha : update.affected.getLsbD i <;>
      simp only [apply, BitVec.getLsbD_or, BitVec.getLsbD_and, BitVec.getLsbD_not, ha, hi] <;> simp
  · simp [BitVec.getLsbD_of_ge _ i (Nat.le_of_not_lt hi)]

end FlagUpdate

end TrapEmulation
