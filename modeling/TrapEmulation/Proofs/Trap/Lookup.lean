import TrapEmulation.Proofs.Trap.Families
import TrapEmulation.Proofs.Trap.Frame

/-!
# One operation for an instruction

The decoder, the opcode table and the two engines are each by themselves particular about what they take, and
they agree: an operation that is found for a decoded instruction is the only one there could be, belongs to the
family of the instruction, and is carried out by the engine of that family with everything it needs.  So
emulation finds an encoding unsupported exactly where the table has no row for it.
-/

namespace TrapEmulation

variable {σ : Type} [UserMemory σ]

/-! ## Engines -/

/-- Hands an operation to the engine of a family, whatever the family of the operation. -/
def Family.execute (family : Family) (operation : Operation) (i : Instruction) (regs : Registers)
    (memory : σ) : Except EmulationError Effect × σ :=
  match family with
  | .bitManipulation => BitManip.execute operation i regs memory
  | .stringCompare => StringCompare.execute operation i regs memory

namespace Operation

/-- The operation takes part of its input from the immediate byte. -/
def usesImmediate : Operation → Bool
  | .bit op => op == .rorx
  | .compare _ => true

theorem execute_eq_family_execute (operation : Operation) (i : Instruction) (regs : Registers)
    (memory : σ) :
    operation.execute i regs memory = operation.family.execute operation i regs memory := by
  cases operation with
  | bit op => rfl
  | compare op => rfl

/-- An operation fails only if its memory operand cannot be read. -/
theorem execute_ne_unsupported (operation : Operation) (i : Instruction) (regs : Registers)
    (memory : σ) : (operation.execute i regs memory).1 ≠ .error .unsupported := by
  rw [execute_fst]
  cases ((i.rm regs).read regs memory (operation.operandWidth i)).1 with
  | error fault => rintro ⟨⟩
  | ok rm => rintro ⟨⟩

theorem effect_withImmediate {operation : Operation} (h : operation.usesImmediate = false) {w : Nat}
    (i : Instruction) (immediate : Option Byte) (regs : Registers) (rm : BitVec w) :
    operation.effect { i with immediate } regs rm = operation.effect i regs rm := by
  cases operation with
  | compare op => cases h
  | bit op =>
    cases op with
    | rorx => cases h
    | _ => rfl

/-- The immediate byte counts only where it is used. -/
theorem execute_withImmediate {operation : Operation} (h : operation.usesImmediate = false)
    (i : Instruction) (immediate : Option Byte) (regs : Registers) (memory : σ) :
    operation.execute { i with immediate } regs memory = operation.execute i regs memory := by
  cases operation with
  | compare op => cases h
  | bit op =>
    cases hread : (i.rm regs).read regs memory i.gprWidth with
    | mk answer after =>
      cases answer with
      | error fault =>
        calc
          (bit op).execute { i with immediate } regs memory = (.error (.memory fault), after) :=
            execute_of_operand_error hread
          _ = (bit op).execute i regs memory := (execute_of_operand_error hread).symm
      | ok rm =>
        calc
          (bit op).execute { i with immediate } regs memory =
              (.ok ((bit op).effect { i with immediate } regs rm), after) := execute_of_operand hread
          _ = (.ok ((bit op).effect i regs rm), after) := by rw [effect_withImmediate h]
          _ = (bit op).execute i regs memory := (execute_of_operand hread).symm

end Operation

/-! ## Rows -/

theorem map_eq_map0F3A_iff : ∀ row ∈ opcodeTable,
    row.map = .map0F3A ↔ row.operation.usesImmediate = true := by
  decide

/-- A decoded instruction has an immediate byte exactly if its operation uses one. -/
theorem isSome_immediate_iff {mode : Mode} {bytes : List Byte} {i : Instruction}
    {operation : Operation} (hdecode : decode mode bytes = .ok i)
    (hoperation : i.operation? = some operation) :
    i.immediate.isSome = true ↔ operation.usesImmediate = true := by
  obtain ⟨row, hrow, hcovers, rfl⟩ := exists_row_of_operation? hoperation
  obtain ⟨hmap, -⟩ := (row.covers_iff i).mp hcovers
  obtain ⟨-, hcanonical⟩ := canonical_of_decode hdecode
  rw [hcanonical.immediate_iff, ← hmap, map_eq_map0F3A_iff row hrow]

/-! ## Emulation -/

theorem EmulatorConfig.select_eq_unsupported_iff {config : EmulatorConfig} {mode : Mode}
    {bytes : List Byte} :
    config.select mode bytes = .error .unsupported ↔
      ∃ i, decode mode bytes = .ok i ∧ config.allows i.family = true ∧ i.operation? = none := by
  constructor
  · intro hselect
    unfold select at hselect
    split at hselect
    · cases hselect
    · next i hdecode =>
      split at hselect
      · next hallows =>
        split at hselect
        · cases hselect
        · next hoperation => exact ⟨i, hdecode, hallows, hoperation⟩
      · cases hselect
  · rintro ⟨i, hdecode, hallows, hoperation⟩
    rw [select, hdecode]
    simp only [hallows, hoperation, ↓reduceIte]

/-- Emulation finds an encoding unsupported if it decodes to an instruction of an enabled family that has no
operation. -/
theorem emulate_eq_unsupported_iff (config : EmulatorConfig) (regs : Registers) (memory : σ) :
    (emulate config regs memory).1 = .error .unsupported ↔
      ∃ i, Fetches regs memory i ∧ config.allows i.family = true ∧ i.operation? = none := by
  cases hfetch : (UserMemory.fetch regs.mode.mask memory regs.ip maxInstructionLength).1 with
  | error fault =>
    rw [emulate_of_fetch_error hfetch]
    simp [Fetches, hfetch]
  | ok bytes =>
    have hfetches (i : Instruction) : Fetches regs memory i ↔ decode regs.mode bytes = .ok i := by
      simp [Fetches, hfetch]
    simp only [hfetches, ← EmulatorConfig.select_eq_unsupported_iff]
    cases hselect : config.select regs.mode bytes with
    | error error =>
      rw [emulate_of_select_error hfetch hselect, Except.error.injEq, Except.error.injEq]
    | ok selected =>
      rw [emulate_of_select hfetch hselect]
      have hexecute := selected.1.execute_ne_unsupported selected.2 regs (afterFetch regs memory)
      cases hanswer : (selected.1.execute selected.2 regs (afterFetch regs memory)).1 with
      | error error =>
        rw [hanswer] at hexecute
        refine iff_of_false (fun hunsupported ↦ hexecute ?_) (by rintro ⟨⟩)
        cases hunsupported
        rfl
      | ok effect => exact iff_of_false (by rintro ⟨⟩) (by rintro ⟨⟩)

/-- An operation that is found for a decoded instruction is the only one that the table could give, in whatever
order its rows stand.  It belongs to the family of the instruction, and the engine of that family, to which it
goes, carries it out; it has an immediate byte if and only if it uses one, and a bit manipulation has a VEX
prefix.  So emulation finds an encoding unsupported only where no operation is found. -/
theorem operation?_unambiguous :
    (∀ mode bytes i, decode mode bytes = .ok i →
      (opcodeTable.filter fun row ↦ row.covers i).length ≤ 1 ∧
      (∀ table : List OpcodeRow, table.Perm opcodeTable →
        (table.find? fun row ↦ row.covers i).map OpcodeRow.operation = i.operation?) ∧
      ∀ operation, i.operation? = some operation →
        operation.family = i.family ∧
        (∀ regs (memory : σ),
          operation.execute i regs memory = i.family.execute operation i regs memory ∧
          (operation.execute i regs memory).1 ≠ .error .unsupported) ∧
        (i.immediate.isSome = true ↔ operation.usesImmediate = true) ∧
        (operation.usesImmediate = false → ∀ immediate regs (memory : σ),
          operation.execute { i with immediate } regs memory = operation.execute i regs memory) ∧
        ∀ op, operation = .bit op → i.isVex = true) ∧
    ∀ config regs (memory : σ),
      (emulate config regs memory).1 = .error .unsupported ↔
        ∃ i, Fetches regs memory i ∧ config.allows i.family = true ∧ i.operation? = none := by
  refine ⟨fun mode bytes i hdecode ↦ ⟨length_filter_covers_le_one i, ?_, ?_⟩, emulate_eq_unsupported_iff⟩
  · intro table hperm
    rw [find?_covers_of_perm hperm]
    rfl
  · intro operation hoperation
    have hfamily := family_of_operation? hdecode hoperation
    refine ⟨hfamily, fun regs memory ↦ ⟨?_, operation.execute_ne_unsupported i regs memory⟩,
      isSome_immediate_iff hdecode hoperation,
      fun hunused immediate regs memory ↦ Operation.execute_withImmediate hunused i immediate regs memory,
      ?_⟩
    · rw [← hfamily]
      exact operation.execute_eq_family_execute i regs memory
    · rintro op rfl
      exact isVex_of_operation? hoperation

end TrapEmulation
