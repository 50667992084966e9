import TrapEmulation.Memory.Window
import TrapEmulation.Proofs.OpcodeTable
import TrapEmulation.Proofs.StringCompare.Effects
import TrapEmulation.Proofs.Trap.Handled

/-!
# Traps of string comparisons

Every encoding of a string comparison that can be read, together with its operand, is handled, and the
registers are afterwards those that comparing the strings element by element gives.
-/

namespace TrapEmulation

open Reference

variable {σ : Type} [UserMemory σ]

/-! ## Encodings -/

def compareOpcode : CompareOp → Byte
  | .pcmpestrm => 0x60
  | .pcmpestri => 0x61
  | .pcmpistrm => 0x62
  | .pcmpistri => 0x63

/-- The prefixes and the body encode the operation, with a legacy encoding or with VEX. -/
structure EncodesCompare (mode : Mode) (prefixes : List Byte) (op : CompareOp) (body : Body) :
    Prop where
  legacy : body.vex = none → 0x66 ∈ prefixes ∧ 0xF2 ∉ prefixes ∧ 0xF3 ∉ prefixes
  /-- The extra register is no operand. -/
  vex : ∀ v ∈ body.vex, v.mandatory = .p66 ∧ v.vvvvIn mode = 0
  map : body.map = .map0F3A
  opcode : body.opcode = compareOpcode op

/-- The operand-size prefix is the mandatory one where neither F2 nor F3 occurs. -/
theorem legacyMandatory_eq_p66_iff (prefixes : List Byte) :
    legacyMandatory prefixes = .p66 ↔ 0x66 ∈ prefixes ∧ 0xF2 ∉ prefixes ∧ 0xF3 ∉ prefixes := by
  have hrepeat : ∀ byte, repeatPrefix? byte ≠ some .p66 := by decide
  rw [legacyMandatory, ← lastRepeat_eq_none_iff]
  cases hlast : lastMeaning repeatPrefix? prefixes with
  | none => simp
  | some p =>
    obtain ⟨byte, -, hbyte⟩ := List.mem_filterMap.mp (List.mem_of_getLast? hlast)
    have hp : p ≠ .p66 := by
      rintro rfl
      exact hrepeat byte hbyte
    simp [hp]

theorem row_of_compare (op : CompareOp) : OpcodeRow.ofCompare (compareOpcode op) op ∈ opcodeTable := by
  cases op <;> decide

theorem operation?_of_encodesCompare {mode : Mode} {prefixes : List Byte} {op : CompareOp}
    {body : Body} (hencodes : EncodesCompare mode prefixes op body) :
    (describe mode prefixes body).operation? = some (.compare op) := by
  have hmandatory : (describe mode prefixes body).mandatory = .p66 := by
    unfold describe
    cases hvex : body.vex with
    | none => exact (legacyMandatory_eq_p66_iff prefixes).mpr (hencodes.legacy hvex)
    | some v => exact (hencodes.vex v hvex).1
  have hvvvv : (describe mode prefixes body).vvvv = 0 := by
    unfold describe
    cases hvex : body.vex with
    | none => rfl
    | some v => exact (hencodes.vex v hvex).2
  have hcovers : (OpcodeRow.ofCompare (compareOpcode op) op).covers (describe mode prefixes body) := by
    rw [OpcodeRow.covers_iff]
    refine ⟨hencodes.map.symm, hencodes.opcode.symm, hmandatory.symm, ?_, ?_, fun _ _ ↦ hvvvv⟩
    · intro reg hmem
      cases hmem
    · intro hvexOnly
      cases hvexOnly
  rw [operation?_of_covers (row_of_compare op) hcovers]
  rfl

/-- There are no other encodings of a comparison. -/
theorem encodesCompare_of_operation? {mode : Mode} {prefixes : List Byte} {op : CompareOp}
    {body : Body} (hsome : (describe mode prefixes body).operation? = some (.compare op)) :
    EncodesCompare mode prefixes op body := by
  have hcovers := (operation?_eq_some_iff (row_of_compare op)).mp hsome
  rw [OpcodeRow.covers_iff] at hcovers
  obtain ⟨hmap, hopcode, hmandatory, -, -, hvvvv⟩ := hcovers
  refine ⟨?_, ?_, hmap.symm, hopcode.symm⟩
  · intro hvex
    rw [← legacyMandatory_eq_p66_iff]
    rw [describe, hvex] at hmandatory
    exact hmandatory.symm
  · rintro v (hvex : body.vex = some v)
    rw [describe, hvex] at hmandatory hvvvv
    exact ⟨hmandatory.symm, hvvvv rfl rfl⟩

theorem family_of_encodesCompare {mode : Mode} {prefixes : List Byte} {op : CompareOp} {body : Body}
    (hencodes : EncodesCompare mode prefixes op body) : body.family = .stringCompare := by
  rw [Body.family, hencodes.opcode]
  cases op <;> rfl

/-! ## Execution -/

/-- Executing a comparison whose operand can be read makes the changes that the elements call for. -/
theorem execute_compare (op : CompareOp) {i : Instruction} {regs : Registers} {memory after : σ}
    {value : Nat} (hmode : i.mode = regs.mode)
    (hoperand : ReadsOperand i regs 16 (vectorRegister regs (rmRegister i)) memory after value) :
    ∃ effect : Effect, (Operation.compare op).execute i regs memory = (.ok effect, after) ∧
      effect.commit regs =
        (compareChanges op (controlOf i) (stringsOf op i regs value)).apply i.length regs ∧
      effect.length = i.length := by
  have hregister : (Operand.register i.rmIndex).read regs memory .w128 =
      (.ok (regs.xmm i.rmIndex), memory) := rfl
  rw [vectorRegister_eq] at hoperand
  obtain ⟨b, hread, rfl⟩ := read_rm hmode hregister hoperand
  have hexecute : (Operation.compare op).execute i regs memory =
      (.ok (StringCompare.effect op i regs b), after) := by
    change StringCompare.execute (.compare op) i regs memory = _
    rw [StringCompare.execute, hread]
  exact ⟨StringCompare.effect op i regs b, hexecute, StringCompare.commit_effect op i regs b,
    congrArg Effect.length (StringCompare.effect_eq op i regs b)⟩

/-- The trap of a readable string comparison with a readable operand is handled, and the registers
change as comparing the elements says. -/
theorem handleTrap_stringCompare {config : EmulatorConfig} {regs : Registers} {memory after : σ}
    {op : CompareOp} {prefixes : List Byte} {body : Body} {value : Nat}
    (henabled : config.stringCompare = true) (huser : regs.cs.toNat % 4 = 3)
    (hencodes : EncodesCompare regs.mode prefixes op body) (hlegal : body.Legal)
    (hadmits : Admits regs.mode prefixes body)
    (hserves : UserMemory.Serves regs.mode.mask memory regs.ip (prefixes ++ body.bytes))
    (hoperand :
      let i := describe regs.mode prefixes body
      ReadsOperand i regs 16 (vectorRegister regs (rmRegister i)) (afterFetch regs memory) after value) :
    let i := describe regs.mode prefixes body
    handleTrap config regs memory 6 =
      { outcome := .handled
        registers :=
          (compareChanges op (controlOf i) (stringsOf op i regs value)).apply i.length regs
        memory := after
        log := [.emulated regs.ip (.compare op) i.length] } := by
  intro i
  obtain ⟨effect, hexecute, hcommit, hlength⟩ := execute_compare op rfl hoperand
  have hallows : config.allows body.family = true := by
    rw [family_of_encodesCompare hencodes]
    exact henabled
  rw [handleTrap_of_execute huser hlegal hadmits hserves hallows
    (operation?_of_encodesCompare hencodes) hexecute, hcommit, hlength]

/-- A search for one string in another, which stands in front of the instruction in memory. -/
def searchBody : Body where
  vex := none
  map := .map0F3A
  opcode := 0x63
  operands := ⟨⟨0, 1, 5⟩, none, some (.disp32 0xFFFFFFE6)⟩
  immediate := some 0x0C

/-- The string "hello world okay" begins 26 bytes before the end of the instruction, at no aligned address. -/
def searchMemory : Window where
  base := 0x1003
  cells :=
    #[0x68, 0x65, 0x6C, 0x6C, 0x6F, 0x20, 0x77, 0x6F, 0x72, 0x6C, 0x64, 0x20, 0x6F, 0x6B, 0x61, 0x79,
      0x66, 0x0F, 0x3A, 0x63, 0x0D, 0xE6, 0xFF, 0xFF, 0xFF, 0x0C]

/-- The string "lo" is searched for. -/
def searchRegisters : Registers :=
  { (Registers.initial .bits64).setXmm 1 0x6F6C with rip := 0x1013 }

theorem handleTrap_search :
    handleTrap {} searchRegisters searchMemory 6 =
      { outcome := .handled
        registers := { searchRegisters.setGpr 1 3 with rip := 0x101D, rflags := 0x83 }
        memory := searchMemory
        log := [.emulated 0x1013 (.compare .pcmpistri) 10] } := by
  have hencodes : EncodesCompare .bits64 [0x66] .pcmpistri searchBody :=
    ⟨fun _ ↦ by decide, by rintro v ⟨⟩, rfl, rfl⟩
  have hlegal : searchBody.Legal := by
    refine ⟨.inr (.inr ⟨rfl, rfl, by decide⟩), ⟨⟨by decide, by decide, by decide⟩, by decide, ?_, ?_,
      ?_⟩, by decide⟩
    · rintro s ⟨⟩
    · simp [searchBody]
    · simp [searchBody, OperandBytes.LacksBase]
  have hadmits : Admits .bits64 [0x66] searchBody := by
    refine ⟨by decide, by decide, by rintro ⟨⟩, ⟨by rintro ⟨⟩, by rintro ⟨⟩⟩, by decide⟩
  have hserves : UserMemory.Serves Mode.bits64.mask searchMemory 0x1013
      ([0x66] ++ searchBody.bytes) :=
    ⟨_, rfl, _, rfl, _, rfl, _, rfl, _, rfl, _, rfl, _, rfl, _, rfl, _, rfl, _, rfl, trivial⟩
  have hoperand : ReadsOperand (describe .bits64 [0x66] searchBody) searchRegisters 16 0
      searchMemory searchMemory 0x79616B6F20646C726F77206F6C6C6568 := by
    refine ⟨#v[0x68, 0x65, 0x6C, 0x6C, 0x6F, 0x20, 0x77, 0x6F, 0x72, 0x6C, 0x64, 0x20, 0x6F, 0x6B,
      0x61, 0x79], rfl, rfl⟩
  have hregisters :
      (compareChanges .pcmpistri (controlOf (describe .bits64 [0x66] searchBody))
        (stringsOf .pcmpistri (describe .bits64 [0x66] searchBody) searchRegisters
          0x79616B6F20646C726F77206F6C6C6568)).apply 10 searchRegisters =
      { searchRegisters.setGpr 1 3 with rip := 0x101D, rflags := 0x83 } := by
    decide +kernel
  rw [← hregisters]
  have huser : searchRegisters.cs.toNat % 4 = 3 := by decide
  exact handleTrap_stringCompare rfl huser hencodes hlegal hadmits hserves hoperand

end TrapEmulation
