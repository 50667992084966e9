import TrapEmulation.Effect
import TrapEmulation.Proofs.Checked.Words

/-!
# Checked register access

A register number reaches the register file through a mask, so it stays within the file whatever it
is. A flag is only ever recorded among those that an update affects, and an effect has room for two
register writes.
-/

namespace TrapEmulation.Checked

/-! ## Register numbers and register files -/

/-- The register that a field of three bits names together with the bit that extends it. -/
def registerNumber (field : Byte) (extension : Bool) : Run Nat := do
  let high ← shiftLeft ((BitVec.ofBool extension).setWidth 8) 3
  return (field ||| high).toNat

def gpr (regs : Registers) (index : Nat) : Run (BitVec 64) := get regs.gprs (index &&& 15)

def xmm (regs : Registers) (index : Nat) : Run (BitVec 128) := get regs.xmms (index &&& 15)

theorem registerNumber_eq {field : Byte} (h : field.toNat < 8) (extension : Bool) :
    registerNumber field extension = pure (field.toNat + 8 * extension.toNat) := by
  rw [registerNumber, shiftLeft, guarded_eq (by decide), pure_bind, BitVec.toNat_or]
  cases extension with
  | false => exact congrArg pure (Nat.or_zero _)
  | true =>
    have hor : 2 ^ 3 * 1 + field.toNat = 2 ^ 3 * 1 ||| field.toNat := Nat.two_pow_add_eq_or_of_lt h 1
    rw [Nat.or_comm, Nat.add_comm]
    exact congrArg pure hor.symm

theorem and_fifteen (index : Nat) : index &&& 15 = index % 16 := Nat.and_two_pow_sub_one_eq_mod index 4

theorem gpr_eq_pure (regs : Registers) (index : Nat) : gpr regs index = pure (regs.gpr index) := by
  rw [gpr, and_fifteen, get_eq _ (Nat.mod_lt index (by decide)), Registers.gpr]

theorem xmm_eq_pure (regs : Registers) (index : Nat) : xmm regs index = pure (regs.xmm index) := by
  rw [xmm, and_fifteen, get_eq _ (Nat.mod_lt index (by decide)), Registers.xmm]

/-! ## Instruction pointer -/

/-- The instruction pointer as the mode sees it. -/
def ip (regs : Registers) : Run Address := do
  let mask ← maskBits regs.mode.width
  return regs.rip &&& mask

def advance (regs : Registers) (delta : Address) : Run Registers := do
  let old ← ip regs
  let mask ← maskBits regs.mode.width
  return { regs with rip := (old + delta) &&& mask }

theorem ip_eq_pure (regs : Registers) : ip regs = pure regs.ip := by
  rw [ip, maskBits_eq, pure_bind, Registers.ip, Mode.clip, Mode.mask]

theorem advance_eq_pure (regs : Registers) (delta : Address) :
    advance regs delta = pure (regs.advance delta) := by
  rw [advance, ip_eq_pure, pure_bind, maskBits_eq, pure_bind, Registers.advance, Registers.setIp,
    Mode.clip, Mode.mask]

/-! ## Flags -/

/-- An update that clears the given flags. -/
def clearing (flags : List Flag) : FlagUpdate :=
  ⟨flags.foldl (fun bits flag ↦ bits ||| flag.mask) 0, 0⟩

/-- Records a flag, which has to be among those that the update affects. -/
def record (update : FlagUpdate) (flag : Flag) (on : Bool) : Run FlagUpdate := do
  require (update.affected &&& flag.mask = flag.mask)
  return { update with
    values := if on then update.values ||| flag.mask else update.values &&& ~~~flag.mask }

example : record (clearing [.carry]) .zero true = .error .assertion := rfl

/-- Clears some flags and then records values for some of them. -/
def flagUpdate (affected : List Flag) (values : List (Flag × Bool)) : Run FlagUpdate :=
  values.foldlM (fun update entry ↦ record update entry.1 entry.2) (clearing affected)

/-! ## Effects -/

/-- Adds a register write, for which there has to be room. -/
def push (effect : Effect) (write : RegWrite) : Run Effect := do
  require (effect.writes.length < 2)
  return { effect with writes := effect.writes ++ [write] }

def applyWrite (regs : Registers) : RegWrite → Run Registers
  | .gpr index value => do
    let gprs ← set regs.gprs (index &&& 15) value
    return { regs with gprs }
  | .xmm index value => do
    let xmms ← set regs.xmms (index &&& 15) value
    return { regs with xmms }

/-- The registers after the instruction. -/
def commit (effect : Effect) (regs : Registers) : Run Registers := do
  let written ← effect.writes.foldlM applyWrite regs
  advance (Effect.applyFlags written effect.flags) (BitVec.ofNat 64 effect.length)

theorem push_first (write : RegWrite) (flags : Option FlagUpdate) (length : Nat) :
    push ⟨[], flags, length⟩ write = pure ⟨[write], flags, length⟩ := rfl

theorem push_second (first second : RegWrite) (flags : Option FlagUpdate) (length : Nat) :
    push ⟨[first], flags, length⟩ second = pure ⟨[first, second], flags, length⟩ := rfl

example (first second third : RegWrite) :
    push ⟨[first, second], none, 5⟩ third = .error .assertion := rfl

theorem applyWrite_eq (regs : Registers) (write : RegWrite) :
    applyWrite regs write = pure (write.apply regs) := by
  cases write with
  | gpr index value =>
    rw [applyWrite, and_fifteen, set_eq _ (Nat.mod_lt index (by decide)), pure_bind, RegWrite.apply,
      Registers.setGpr]
  | xmm index value =>
    rw [applyWrite, and_fifteen, set_eq _ (Nat.mod_lt index (by decide)), pure_bind, RegWrite.apply,
      Registers.setXmm]

theorem commit_eq_pure (effect : Effect) (regs : Registers) :
    commit effect regs = pure (effect.commit regs) := by
  have happly : applyWrite = fun regs write ↦ pure (write.apply regs) :=
    funext fun regs ↦ funext (applyWrite_eq regs)
  rw [commit, happly, List.foldlM_pure, pure_bind, advance_eq_pure, Effect.commit]

end TrapEmulation.Checked
