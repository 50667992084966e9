import TrapEmulation.Mode
import TrapEmulation.Registers.Flags

/-!
# Register snapshots

`Registers` is the state of a faulting thread as it was saved on entry to the trap. A register is
named by a number, and only the number modulo sixteen counts. The instruction pointer may hold any
word; reading it or moving it wraps it to the width of the mode.
-/

namespace TrapEmulation

structure Registers where
  gprs : Vector (BitVec 64) 16
  xmms : Vector (BitVec 128) 16
  rip : Address
  rflags : BitVec 64
  /-- The code segment selector. Its low two bits are the privilege level. -/
  cs : BitVec 16
  mode : Mode
  fsBase : Address
  gsBase : Address
  deriving DecidableEq, Repr

namespace Registers

/-- A user thread with all registers zero. -/
def initial (mode : Mode) : Registers where
  gprs := Vector.replicate 16 0
  xmms := Vector.replicate 16 0
  rip := 0
  rflags := Flag.reservedMask
  cs :=
    match mode with
    | .bits32 => 0x23
    | .bits64 => 0x33
  mode := mode
  fsBase := 0
  gsBase := 0

/-! ## General and vector registers -/

/-- The accumulator, as a register number. -/
def rax : Nat := 0

/-- The count register, as a register number. -/
def rcx : Nat := 1

/-- The data register, as a register number. -/
def rdx : Nat := 2

def gpr (regs : Registers) (index : Nat) : BitVec 64 := regs.gprs[index % 16]

def setGpr (regs : Registers) (index : Nat) (value : BitVec 64) : Registers :=
  { regs with gprs := regs.gprs.set (index % 16) value }

def xmm (regs : Registers) (index : Nat) : BitVec 128 := regs.xmms[index % 16]

def setXmm (regs : Registers) (index : Nat) (value : BitVec 128) : Registers :=
  { regs with xmms := regs.xmms.set (index % 16) value }

/-- The low `bits` bits of a general register. -/
def readGpr (regs : Registers) (index bits : Nat) : BitVec 64 :=
  regs.gpr index &&& lowMask 64 bits

/-- Replaces a general register by the low `bits` bits of a value, so that a narrow write clears
the upper bits. -/
def writeGpr (regs : Registers) (index bits : Nat) (value : BitVec 64) : Registers :=
  regs.setGpr index (value &&& lowMask 64 bits)

theorem gpr_setGpr (regs : Registers) (index other : Nat) (value : BitVec 64) :
    (regs.setGpr index value).gpr other =
      if index % 16 = other % 16 then value else regs.gpr other := by
  simp only [gpr, setGpr, Vector.getElem_set]

theorem xmm_setXmm (regs : Registers) (index other : Nat) (value : BitVec 128) :
    (regs.setXmm index value).xmm other =
      if index % 16 = other % 16 then value else regs.xmm other := by
  simp only [xmm, setXmm, Vector.getElem_set]

/-! ## Instruction pointer -/

/-- The instruction pointer as the mode sees it. -/
def ip (regs : Registers) : Address := regs.mode.clip regs.rip

def setIp (regs : Registers) (address : Address) : Registers :=
  { regs with rip := regs.mode.clip address }

/-- Moves the instruction pointer forward. -/
def advance (regs : Registers) (delta : Address) : Registers := regs.setIp (regs.ip + delta)

/-! ## Flags and privilege -/

/-- The fault was raised at the least privileged level. -/
def isUser (regs : Registers) : Bool := regs.cs &&& 3 == 3

/-- The named flags that are set. -/
def flags (regs : Registers) : BitVec 64 := regs.rflags &&& Flag.knownMask

/-- All of the given flags are set. -/
def hasFlags (regs : Registers) (mask : BitVec 64) : Bool := regs.flags &&& mask == mask

def applyFlags (regs : Registers) (update : FlagUpdate) : Registers :=
  { regs with rflags := update.apply regs.rflags }

end Registers

end TrapEmulation
