import TrapEmulation.Encoding.Fields
import TrapEmulation.Proofs.Words
import TrapEmulation.Registers.Snapshot

/-!
# Numbers in registers and encodings

Registers as numbers, two's complement and the places of the flags, as addresses and both families of
instructions use them.
-/

namespace TrapEmulation.Reference

theorem mod_sixteen_lt (index : Nat) : index % 16 < 16 := Nat.mod_lt index (by decide)

/-- The number in a general register. -/
def register (regs : Registers) (index : Nat) : Nat :=
  (regs.gprs.get ⟨index % 16, mod_sixteen_lt index⟩).toNat

/-- The number in a vector register. -/
def vectorRegister (regs : Registers) (index : Nat) : Nat :=
  (regs.xmms.get ⟨index % 16, mod_sixteen_lt index⟩).toNat

theorem register_eq (regs : Registers) (index : Nat) : register regs index = (regs.gpr index).toNat :=
  rfl

theorem vectorRegister_eq (regs : Registers) (index : Nat) :
    vectorRegister regs index = (regs.xmm index).toNat :=
  rfl

/-- The number that a word stands for in two's complement. -/
def signed (w x : Nat) : Int := if 2 * x < 2 ^ w then x else (x : Int) - (2 ^ w : Nat)

theorem signed_toNat {w : Nat} (x : BitVec w) : signed w x.toNat = x.toInt := by
  rw [BitVec.toInt_eq_toNat_cond, signed]

/-- The number that a displacement stands for: its bits in two's complement, as many as were encoded. -/
def displacementValue : Displacement → Int
  | .disp8 bits => signed 8 bits.toNat
  | .disp32 bits => signed 32 bits.toNat

theorem value_eq_displacementValue (d : Displacement) : d.value = displacementValue d := by
  cases d with
  | disp8 bits => exact (signed_toNat bits).symm
  | disp32 bits => exact (signed_toNat bits).symm

def carryFlag : Nat := 0
def parityFlag : Nat := 2
def adjustFlag : Nat := 4
def zeroFlag : Nat := 6
def signFlag : Nat := 7
def overflowFlag : Nat := 11

end TrapEmulation.Reference
