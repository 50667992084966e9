import TrapEmulation.Proofs.Memory.Limit
import TrapEmulation.Proofs.Trap.Execution

/-!
# What 32-bit code sees of the memory

The instruction is fetched byte by byte at addresses below `2 ^ 32`, and the effective address lies below it as
well.  The operand is read as one range from there, which is not wrapped: an operand that begins in the last
bytes below `2 ^ 32` may reach past it.  Then and only then does emulation depend on what stands there, and
never on anything behind the first fifteen bytes.
-/

namespace TrapEmulation

open Reference UserMemory

variable {σ τ : Type} [UserMemory σ] [UserMemory τ]

/-! ## Emulation in two memories -/

/-- The emulator takes what it fetches for this operation of this instruction. -/
def Selects (config : EmulatorConfig) (regs : Registers) (memory : σ) (operation : Operation)
    (i : Instruction) : Prop :=
  ∃ bytes, (fetch regs.mode.mask memory regs.ip maxInstructionLength).1 = .ok bytes ∧
    config.select regs.mode bytes = .ok (operation, i)

theorem Selects.emulate_eq {config : EmulatorConfig} {regs : Registers} {memory : σ}
    {operation : Operation} {i : Instruction} (hpure : Pure memory)
    (hselects : Selects config regs memory operation i) :
    (emulate config regs memory).1 =
      (operation.execute i regs memory).1.map (Emulated.mk operation) := by
  obtain ⟨bytes, hfetch, hselect⟩ := hselects
  have hafter : afterFetch regs memory = memory := hpure.fetch _ _
  rw [emulate_of_select hfetch hselect, hafter]

/-- Emulation gives the same in two memories if the same is fetched and what is selected executes alike. -/
theorem emulate_congr {config : EmulatorConfig} {regs : Registers} {memory : σ} {other : τ}
    (hpure : Pure memory) (hother : Pure other)
    (hfetch : (fetch regs.mode.mask other regs.ip maxInstructionLength).1 =
      (fetch regs.mode.mask memory regs.ip maxInstructionLength).1)
    (hexecute : ∀ operation i, Selects config regs memory operation i →
      (operation.execute i regs other).1 = (operation.execute i regs memory).1) :
    (emulate config regs other).1 = (emulate config regs memory).1 := by
  cases hbytes : (fetch regs.mode.mask memory regs.ip maxInstructionLength).1 with
  | error fault =>
    rw [emulate_of_fetch_error hbytes, emulate_of_fetch_error (hfetch.trans hbytes)]
  | ok bytes =>
    cases hselect : config.select regs.mode bytes with
    | error error =>
      rw [emulate_of_select_error hbytes hselect,
        emulate_of_select_error (hfetch.trans hbytes) hselect]
    | ok selected =>
      have hselects : Selects config regs memory selected.1 selected.2 := ⟨bytes, hbytes, hselect⟩
      have hselects' : Selects config regs other selected.1 selected.2 :=
        ⟨bytes, hfetch.trans hbytes, hselect⟩
      rw [hselects.emulate_eq hpure, hselects'.emulate_eq hother, hexecute _ _ hselects]

/-! ## Addresses of 32-bit code -/

/-- The memory operand reaches past the low 4 GiB. -/
def Instruction.Straddles (operation : Operation) (i : Instruction) (regs : Registers) : Prop :=
  i.modrm.md ≠ 3 ∧ 2 ^ 32 < (i.effectiveAddress regs).toNat + operandBytes operation i

theorem toNat_effectiveAddress_lt (i : Instruction) (regs : Registers) :
    (i.effectiveAddress regs).toNat < 2 ^ regs.mode.width := by
  rw [Instruction.effectiveAddress, Mode.toNat_clip]
  exact Nat.mod_lt _ (Nat.two_pow_pos _)

theorem operandBytes_le (operation : Operation) (i : Instruction) : operandBytes operation i ≤ 16 := by
  rw [← operation.bytes_operandWidth]
  cases operation.operandWidth i <;> decide

/-- Fetching takes no byte at or above the width of the mode. -/
theorem UserMemory.AlikeBelow.fetch_eq {regs : Registers} {memory : σ} {other : τ} (hpure : Pure memory)
    (hother : Pure other) (halike : AlikeBelow (2 ^ regs.mode.width) memory other) :
    (fetch regs.mode.mask other regs.ip maxInstructionLength).1 =
      (fetch regs.mode.mask memory regs.ip maxInstructionLength).1 := by
  have hbyte (address : Address) : AnswersAlike memory other (address &&& regs.mode.mask) 1 := by
    apply halike
    have hclip := regs.mode.toNat_clip address
    have hlt := Nat.mod_lt address.toNat (Nat.two_pow_pos regs.mode.width)
    change (regs.mode.clip address).toNat + 1 ≤ _
    omega
  exact (fetch_congr hpure hother hbyte _ _).symm

/-- Below a limit, the memories execute an instruction alike if its memory operand ends there. -/
theorem UserMemory.AlikeBelow.execute_eq {limit : Nat} {operation : Operation} {i : Instruction}
    {regs : Registers} {memory : σ} {other : τ} (halike : AlikeBelow limit memory other)
    (hend : i.modrm.md ≠ 3 → (i.effectiveAddress regs).toNat + operandBytes operation i ≤ limit) :
    (operation.execute i regs other).1 = (operation.execute i regs memory).1 :=
  (Operation.execute_congr fun hmemory ↦ halike _ _ (hend hmemory)).symm

/-- An operand that reaches past the limit is read where the answers are contrary, so execution succeeds in
one memory and fails in the other. -/
theorem execute_contrary_ne {limit : Nat} {operation : Operation} {i : Instruction} {regs : Registers}
    {memory : σ} (hmemory : i.modrm.md ≠ 3)
    (hend : limit < (i.effectiveAddress regs).toNat + operandBytes operation i) :
    (operation.execute i regs (Contrary.mk memory limit)).1.map (Emulated.mk operation) ≠
      (operation.execute i regs memory).1.map (Emulated.mk operation) := by
  have hcontrary : (UserMemory.read (Contrary.mk memory limit) (i.effectiveAddress regs)
      (operandBytes operation i)).1 = _ := Contrary.read_of_limit_lt hend
  cases hread : UserMemory.read memory (i.effectiveAddress regs) (operandBytes operation i) with
  | mk answer after =>
    rw [hread] at hcontrary
    cases answer with
    | ok cells =>
      obtain ⟨rm, -, hexecute⟩ := Operation.execute_memory hmemory rfl hread
      have hfails := Operation.execute_memory_error hmemory rfl (Prod.ext hcontrary rfl)
      rw [hexecute, hfails]
      rintro ⟨⟩
    | error fault =>
      have hfails := Operation.execute_memory_error hmemory rfl hread
      obtain ⟨rm, -, hexecute⟩ := Operation.execute_memory hmemory rfl (Prod.ext hcontrary rfl)
      rw [hexecute, hfails]
      rintro ⟨⟩

/-- Emulation of 32-bit code depends on memory at or above `2 ^ 32` exactly if the memory operand of what is
emulated reaches past that address.  Fetching never does, and the operand never by more than fifteen bytes. -/
theorem emulate_low_memory {config : EmulatorConfig} {regs : Registers} {memory : σ}
    (hmode : regs.mode = .bits32) (hpure : Pure memory) :
    (∀ {τ : Type} [UserMemory τ] (other : τ), Pure other → AlikeBelow (2 ^ 32) memory other →
      (fetch regs.mode.mask other regs.ip maxInstructionLength).1 =
        (fetch regs.mode.mask memory regs.ip maxInstructionLength).1) ∧
    ((∀ {τ : Type} [UserMemory τ] (other : τ), Pure other → AlikeBelow (2 ^ 32) memory other →
        (emulate config regs other).1 = (emulate config regs memory).1) ↔
      ∀ operation i, Selects config regs memory operation i → ¬ i.Straddles operation regs) ∧
    ∀ {τ : Type} [UserMemory τ] (other : τ), Pure other → AlikeBelow (2 ^ 32 + 15) memory other →
      (emulate config regs other).1 = (emulate config regs memory).1 := by
  have hwidth : 2 ^ regs.mode.width = 2 ^ 32 := by
    rw [hmode]
    rfl
  have hfetch {τ : Type} [UserMemory τ] (other : τ) (hother : Pure other)
      (halike : AlikeBelow (2 ^ 32) memory other) :
      (fetch regs.mode.mask other regs.ip maxInstructionLength).1 =
        (fetch regs.mode.mask memory regs.ip maxInstructionLength).1 := by
    rw [← hwidth] at halike
    exact halike.fetch_eq hpure hother
  refine ⟨hfetch, ⟨?_, ?_⟩, ?_⟩
  · -- The contrary memory shows every operand that reaches past the limit.
    rintro hsame operation i hselects ⟨hmemory, hend⟩
    have hcontrary := Contrary.pure (Contrary.mk memory (2 ^ 32))
    have halike := Contrary.alikeBelow memory (2 ^ 32)
    have hselects' : Selects config regs (Contrary.mk memory (2 ^ 32)) operation i := by
      obtain ⟨bytes, hbytes, hselect⟩ := hselects
      exact ⟨bytes, (hfetch _ hcontrary halike).trans hbytes, hselect⟩
    have hsecond := hselects'.emulate_eq hcontrary
    rw [hsame _ hcontrary halike, hselects.emulate_eq hpure] at hsecond
    exact execute_contrary_ne hmemory hend hsecond.symm
  · intro hinside τ _ other hother halike
    refine emulate_congr hpure hother (hfetch other hother halike) fun operation i hselects ↦ ?_
    apply halike.execute_eq
    intro hmemory
    exact Nat.le_of_not_lt fun hend ↦ hinside operation i hselects ⟨hmemory, hend⟩
  · intro τ _ other hother halike
    refine emulate_congr hpure hother (hfetch other hother (halike.mono (by decide)))
      fun operation i _ ↦ halike.execute_eq fun _ ↦ ?_
    have hlt := toNat_effectiveAddress_lt i regs
    have hle := operandBytes_le operation i
    omega

/-! ## An operand at the end of the low 4 GiB -/

/-- The lowest set bit of the memory at `ebx`. -/
def topBlsi : Instruction where
  mode := .bits32
  vex := some .threeByte
  extension := {}
  vvvv := 3
  mandatory := .absent
  map := .map0F38
  opcode := 0xF3
  modrm := ⟨0, 3, 3⟩
  sib := none
  displacement := none
  immediate := none
  segment := none
  addressSizeOverride := false
  family := .bitManipulation
  length := 5

def topRegisters (ebx : BitVec 64) : Registers :=
  { (Registers.initial .bits32).setGpr 3 ebx with rip := 0xFFFFFFF0 }

/-- The instruction in front of the limit, and zeros on both sides of it. -/
def topWindow : Window :=
  ⟨0xFFFFFFF0, #[0xC4, 0xE2, 0x60, 0xF3, 0x1B, 0, 0, 0, 0, 0, 0, 0, 0, 0, 0, 0,
    0, 0, 0, 0, 0, 0, 0, 0, 0, 0, 0, 0, 0, 0, 0, 0]⟩

/-- A one is stored at the limit. -/
def storedWindow : Window :=
  ⟨0xFFFFFFF0, #[0xC4, 0xE2, 0x60, 0xF3, 0x1B, 0, 0, 0, 0, 0, 0, 0, 0, 0, 0, 0,
    1, 0, 0, 0, 0, 0, 0, 0, 0, 0, 0, 0, 0, 0, 0, 0]⟩

/-- The window at the limit, and zeros from the address 0 upwards, where a wrapped range would go on. -/
def topMemory (window : Window) : AddressSpace := [window, .zeroed 0 16]

def topResult (value : BitVec 64) (zero : Bool) : Emulated where
  operation := .bit .blsi
  effect :=
    { writes := [.gpr 3 value]
      flags := some (.ofList [(.zero, zero), (.sign, false), (.carry, !zero), (.overflow, false)])
      length := 5 }

theorem alikeBelow_topMemory :
    AlikeBelow (2 ^ 32) (topMemory topWindow) (topMemory storedWindow) :=
  have hload : topWindow.load? 0x100000000 #[1] = some storedWindow := by decide +kernel
  AddressSpace.alikeBelow_of_load? hload _

theorem pure_topMemory (window : Window) : Pure (topMemory window) := fun _ _ ↦ rfl

/-- The last operand that lies below the limit. -/
theorem emulate_low_memory_top :
    (topRegisters 0xFFFFFFFC).mode = .bits32 ∧ topBlsi.modrm.md ≠ 3 ∧
      (topBlsi.effectiveAddress (topRegisters 0xFFFFFFFC)).toNat + operandBytes (.bit .blsi) topBlsi =
        2 ^ 32 ∧
      (emulate {} (topRegisters 0xFFFFFFFC) (topMemory topWindow)).1 = .ok (topResult 0 true) ∧
      (emulate {} (topRegisters 0xFFFFFFFC) (topMemory storedWindow)).1 = .ok (topResult 0 true) := by
  have hresult : (emulate {} (topRegisters 0xFFFFFFFC) (topMemory topWindow)).1 =
      .ok (topResult 0 true) := by
    rfl
  have hinside (operation : Operation) (i : Instruction)
      (hselects : Selects {} (topRegisters 0xFFFFFFFC) (topMemory topWindow) operation i) :
      ¬ i.Straddles operation (topRegisters 0xFFFFFFFC) := by
    obtain ⟨bytes, hfetch, hselect⟩ := hselects
    cases hfetch
    cases hselect
    exact fun h ↦ absurd h.2 (by decide)
  refine ⟨rfl, by decide, rfl, hresult, ?_⟩
  have hmode : (topRegisters 0xFFFFFFFC).mode = .bits32 := rfl
  rw [(emulate_low_memory hmode (pure_topMemory topWindow)).2.1.mpr hinside _
    (pure_topMemory storedWindow) alikeBelow_topMemory, hresult]

/-- Two bytes further up the stored byte is part of the operand. -/
theorem emulate_straddling :
    (topRegisters 0xFFFFFFFE).mode = .bits32 ∧ Pure (topMemory topWindow) ∧
      Pure (topMemory storedWindow) ∧
      AlikeBelow (2 ^ 32) (topMemory topWindow) (topMemory storedWindow) ∧
      (emulate {} (topRegisters 0xFFFFFFFE) (topMemory topWindow)).1 = .ok (topResult 0 true) ∧
      (emulate {} (topRegisters 0xFFFFFFFE) (topMemory storedWindow)).1 =
        .ok (topResult 0x10000 false) :=
  ⟨rfl, pure_topMemory _, pure_topMemory _, alikeBelow_topMemory, rfl, rfl⟩

end TrapEmulation
