import TrapEmulation.Proofs.Checked.BitManip
import TrapEmulation.Proofs.Checked.Decode
import TrapEmulation.Proofs.Checked.Fetch
import TrapEmulation.Proofs.Checked.StringCompare
import TrapEmulation.Proofs.Encoding.WriteBack
import TrapEmulation.Proofs.Trap.Handled

/-!
# The fault path keeps to the rules

The stages of a trap are put together in their checked forms. What they need of an instruction is that its
fields fit, and every decoded instruction is like that. So no trap breaks a rule, whatever the registers
and the memory hold, and neither does an engine that is handed an operation of the other.
-/

namespace TrapEmulation.Checked

variable {σ : Type} [UserMemory σ]

/-! ## Stages -/

/-- The instruction that the bytes begin with and its operation, if it may be emulated. -/
def select (config : EmulatorConfig) (mode : Mode) (bytes : List Byte) :
    Run (Except EmulationError (Operation × Instruction)) := do
  match ← decode mode bytes with
  | .error error => return .error (.decode error)
  | .ok i =>
    if config.allows i.family then
      match i.operation? with
      | some operation => return .ok (operation, i)
      | none => return .error .unsupported
    else
      return .error (.disabled i.family)

/-- Executes an operation in the engine of its family. -/
def execute (operation : Operation) (i : Instruction) (regs : Registers) (memory : σ) :
    Run (Except EmulationError Effect × σ) :=
  match operation with
  | .bit _ => BitManip.execute operation i regs memory
  | .compare _ => StringCompare.execute operation i regs memory

def emulate (config : EmulatorConfig) (regs : Registers) (memory : σ) :
    Run (Except EmulationError Emulated × σ) := do
  match ← fetch regs memory with
  | (.error fault, memory) => return (.error (.fetch fault), memory)
  | (.ok bytes, memory) =>
    match ← select config regs.mode bytes with
    | .error error => return (.error error, memory)
    | .ok (operation, i) =>
      match ← execute operation i regs memory with
      | (.error error, memory) => return (.error error, memory)
      | (.ok effect, memory) => return (.ok ⟨operation, effect⟩, memory)

def handleTrap (config : EmulatorConfig) (regs : Registers) (memory : σ) (vector : Byte) :
    Run (TrapResult σ) :=
  if Exception.ofVector? vector ≠ some .invalidOpcode then
    return ⟨.forward (.otherTrap vector), regs, memory, []⟩
  else if !regs.isUser then do
    let here ← ip regs
    return ⟨.forward .kernelOrigin, regs, memory, [.kernelFault here]⟩
  else do
    match ← emulate config regs memory with
    | (.ok e, memory) =>
      let after ← commit e.effect regs
      let here ← ip regs
      return ⟨.handled, after, memory, [.emulated here e.operation e.effect.length]⟩
    | (.error error, memory) =>
      let here ← ip regs
      return ⟨.forward (.emulation error), regs, memory, [.notEmulated here error]⟩

/-! ## Every stage keeps to the rules -/

theorem fieldsFit_of_decode {mode : Mode} {bytes : List Byte} {i : Instruction}
    (h : TrapEmulation.decode mode bytes = .ok i) : FieldsFit i := by
  obtain ⟨prefixes, body, rest, -, hlegal, hadmits, rfl⟩ := (decode_eq_ok_iff _ _ _).mp h
  have hoperands := (canonical_describe hlegal hadmits).operands
  exact ⟨hoperands.modrm_fits, hoperands.sib_fits⟩

theorem select_eq (config : EmulatorConfig) (mode : Mode) (bytes : List Byte) :
    select config mode bytes = pure (config.select mode bytes) := by
  rw [select, decode_eq_pure, pure_bind, EmulatorConfig.select]
  cases TrapEmulation.decode mode bytes with
  | error error => rfl
  | ok i =>
    cases hallows : config.allows i.family with
    | false => simp only [hallows, Bool.false_eq_true, if_false]
    | true =>
      simp only [hallows, if_true]
      cases i.operation? with
      | none => rfl
      | some operation => rfl

theorem execute_eq {i : Instruction} (h : FieldsFit i) (operation : Operation) (regs : Registers)
    (memory : σ) : execute operation i regs memory = pure (operation.execute i regs memory) := by
  cases operation with
  | bit op => exact BitManip.execute_eq h (.bit op) regs memory
  | compare op => exact StringCompare.execute_eq h (.compare op) regs memory

theorem fieldsFit_of_select {config : EmulatorConfig} {mode : Mode} {bytes : List Byte}
    {operation : Operation} {i : Instruction} (h : config.select mode bytes = .ok (operation, i)) :
    FieldsFit i := by
  obtain ⟨hdecode, -, -⟩ := EmulatorConfig.select_eq_ok_iff.mp h
  exact fieldsFit_of_decode hdecode

theorem emulate_eq (config : EmulatorConfig) (regs : Registers) (memory : σ) :
    emulate config regs memory = pure (TrapEmulation.emulate config regs memory) := by
  rw [emulate, fetch_eq, pure_bind, TrapEmulation.emulate]
  cases UserMemory.fetch regs.mode.mask memory regs.ip maxInstructionLength with
  | mk fetched after =>
    cases fetched with
    | error fault => rfl
    | ok bytes =>
      simp only [select_eq, pure_bind]
      cases hselect : config.select regs.mode bytes with
      | error error => rfl
      | ok selected =>
        obtain ⟨operation, i⟩ := selected
        simp only [execute_eq (fieldsFit_of_select hselect), pure_bind]
        cases operation.execute i regs after with
        | mk executed last =>
          cases executed with
          | error error => rfl
          | ok effect => rfl

theorem handleTrap_eq (config : EmulatorConfig) (regs : Registers) (memory : σ) (vector : Byte) :
    handleTrap config regs memory vector =
      pure (TrapEmulation.handleTrap config regs memory vector) := by
  unfold handleTrap TrapEmulation.handleTrap
  split
  case isTrue => rfl
  case isFalse =>
    split
    case isTrue => rw [ip_eq_pure, pure_bind]
    case isFalse =>
      rw [emulate_eq, pure_bind]
      cases TrapEmulation.emulate config regs memory with
      | mk emulated after =>
        cases emulated with
        | error error => simp only [ip_eq_pure, pure_bind]
        | ok e => simp only [commit_eq_pure, ip_eq_pure, pure_bind, emulationLog]

/-- No trap breaks a rule, and neither does either engine on a decoded instruction, with an operation of its
own or of the other engine. What they give is what they give unchecked. -/
theorem fault_path_keeps_rules :
    (∀ config regs (memory : σ) vector, handleTrap config regs memory vector =
      .ok (TrapEmulation.handleTrap config regs memory vector)) ∧
    ∀ mode bytes i, TrapEmulation.decode mode bytes = .ok i →
      ∀ operation regs (memory : σ),
        BitManip.execute operation i regs memory =
          .ok (TrapEmulation.BitManip.execute operation i regs memory) ∧
        StringCompare.execute operation i regs memory =
          .ok (TrapEmulation.StringCompare.execute operation i regs memory) := by
  refine ⟨handleTrap_eq, ?_⟩
  intro mode bytes i hdecode operation regs memory
  have hfit := fieldsFit_of_decode hdecode
  exact ⟨BitManip.execute_eq hfit operation regs memory,
    StringCompare.execute_eq hfit operation regs memory⟩

end TrapEmulation.Checked
