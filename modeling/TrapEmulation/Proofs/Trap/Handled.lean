import TrapEmulation.Proofs.Encoding.RoundTrip
import TrapEmulation.Proofs.Memory.Fetch
import TrapEmulation.Proofs.Reference.Address
import TrapEmulation.Trap.Dispatcher

/-!
# Traps that are handled

If an encoding of the grammar can be read at the instruction pointer, the stages up to execution
succeed and the outcome of the trap is that of executing the instruction which the encoding describes.
Whether the r/m operand can be read, and its value, is said by `ReadsOperand`.
-/

namespace TrapEmulation

variable {σ : Type} [UserMemory σ]

/-! ## The instruction -/

/-- The state of the memory after an instruction has been fetched. -/
def afterFetch (regs : Registers) (memory : σ) : σ :=
  (UserMemory.fetch regs.mode.mask memory regs.ip maxInstructionLength).2

/-- What is fetched at the instruction pointer begins with this instruction. -/
def Fetches (regs : Registers) (memory : σ) (i : Instruction) : Prop :=
  ∃ bytes, (UserMemory.fetch regs.mode.mask memory regs.ip maxInstructionLength).1 = .ok bytes ∧
    decode regs.mode bytes = .ok i

/-- Fetching at a readable encoding gives bytes that begin with it. -/
theorem fetch_encoding {regs : Registers} {memory : σ} {prefixes : List Byte} {body : Body}
    (hadmits : Admits regs.mode prefixes body)
    (hserves : UserMemory.Serves regs.mode.mask memory regs.ip (prefixes ++ body.bytes)) :
    ∃ rest, UserMemory.fetch regs.mode.mask memory regs.ip maxInstructionLength =
      (.ok (prefixes ++ body.bytes ++ rest), afterFetch regs memory) := by
  have hlength : (prefixes ++ body.bytes).length ≤ maxInstructionLength := by
    rw [List.length_append]
    exact hadmits.length_le
  unfold afterFetch
  cases hbytes : prefixes ++ body.bytes with
  | nil =>
    have hnil : body.bytes = [] := (List.append_eq_nil_iff.mp hbytes).2
    rw [Body.bytes] at hnil
    exact absurd (List.append_eq_nil_iff.mp hnil).2 (List.cons_ne_nil _ _)
  | cons byte bytes =>
    rw [hbytes] at hserves hlength
    obtain ⟨rest, after, hfetch⟩ := UserMemory.fetch_of_serves hserves hlength
    rw [hfetch]
    exact ⟨rest, rfl⟩

theorem isUser_iff (regs : Registers) : regs.isUser ↔ regs.cs.toNat % 4 = 3 := by
  have hlow : (regs.cs &&& 3).toNat = regs.cs.toNat % 4 := toNat_and_lowMask regs.cs 2
  rw [Registers.isUser, beq_iff_eq, BitVec.toNat_eq, hlow]
  rfl

/-- An invalid opcode of a user thread is handled if it can be emulated, and the effect is committed. -/
theorem handleTrap_of_emulate {config : EmulatorConfig} {regs : Registers} {memory after : σ}
    {e : Emulated} (huser : regs.cs.toNat % 4 = 3)
    (hemulate : emulate config regs memory = (.ok e, after)) :
    handleTrap config regs memory 6 =
      ⟨.handled, e.effect.commit regs, after, [.emulated regs.ip e.operation e.effect.length]⟩ := by
  have hvector : Exception.ofVector? 6 = some .invalidOpcode := rfl
  have hisUser : regs.isUser = true := (isUser_iff regs).mpr huser
  unfold handleTrap
  rw [hvector, hisUser, hemulate]
  rfl

/-- An operation is selected if every stage before execution succeeds. -/
theorem EmulatorConfig.select_eq_ok_iff {config : EmulatorConfig} {mode : Mode} {bytes : List Byte}
    {operation : Operation} {i : Instruction} :
    config.select mode bytes = .ok (operation, i) ↔
      decode mode bytes = .ok i ∧ config.allows i.family = true ∧ i.operation? = some operation := by
  constructor
  · intro hselect
    unfold EmulatorConfig.select at hselect
    split at hselect
    · cases hselect
    · next hdecode =>
      split at hselect
      · next hallows =>
        split at hselect
        · next hoperation =>
          cases hselect
          exact ⟨hdecode, hallows, hoperation⟩
        · cases hselect
      · cases hselect
  · rintro ⟨hdecode, hallows, hoperation⟩
    rw [EmulatorConfig.select, hdecode]
    simp only [hallows, hoperation, ↓reduceIte]

/-! ## The stages of emulation -/

section

variable {config : EmulatorConfig} {regs : Registers} {memory : σ} {bytes : List Byte}

theorem emulate_of_fetch_error {fault : MemoryFault}
    (hfetch : (UserMemory.fetch regs.mode.mask memory regs.ip maxInstructionLength).1 = .error fault) :
    emulate config regs memory = (.error (.fetch fault), afterFetch regs memory) := by
  have hanswer : UserMemory.fetch regs.mode.mask memory regs.ip maxInstructionLength =
      (.error fault, afterFetch regs memory) := Prod.ext hfetch rfl
  rw [emulate, hanswer]

theorem emulate_of_select_error {error : EmulationError}
    (hfetch : (UserMemory.fetch regs.mode.mask memory regs.ip maxInstructionLength).1 = .ok bytes)
    (hselect : config.select regs.mode bytes = .error error) :
    emulate config regs memory = (.error error, afterFetch regs memory) := by
  have hanswer : UserMemory.fetch regs.mode.mask memory regs.ip maxInstructionLength =
      (.ok bytes, afterFetch regs memory) := Prod.ext hfetch rfl
  rw [emulate, hanswer]
  simp only [hselect]

/-- Once an operation has been selected, its execution decides. -/
theorem emulate_of_select {operation : Operation} {i : Instruction}
    (hfetch : (UserMemory.fetch regs.mode.mask memory regs.ip maxInstructionLength).1 = .ok bytes)
    (hselect : config.select regs.mode bytes = .ok (operation, i)) :
    emulate config regs memory =
      ((operation.execute i regs (afterFetch regs memory)).1.map (Emulated.mk operation),
        (operation.execute i regs (afterFetch regs memory)).2) := by
  have hanswer : UserMemory.fetch regs.mode.mask memory regs.ip maxInstructionLength =
      (.ok bytes, afterFetch regs memory) := Prod.ext hfetch rfl
  rw [emulate, hanswer]
  simp only [hselect]
  cases operation.execute i regs (afterFetch regs memory) with
  | mk answer after => cases answer <;> rfl

end

/-- An instruction is emulated if it is fetched, selected and executed. -/
theorem emulate_eq_ok_iff {config : EmulatorConfig} {regs : Registers} {memory after : σ}
    {e : Emulated} :
    emulate config regs memory = (.ok e, after) ↔
      ∃ bytes middle i,
        UserMemory.fetch regs.mode.mask memory regs.ip maxInstructionLength = (.ok bytes, middle) ∧
        config.select regs.mode bytes = .ok (e.operation, i) ∧
        e.operation.execute i regs middle = (.ok e.effect, after) := by
  constructor
  · intro hemulate
    unfold emulate at hemulate
    split at hemulate
    · cases hemulate
    · next bytes middle hfetch =>
      split at hemulate
      · cases hemulate
      · next operation i hselect =>
        split at hemulate
        · cases hemulate
        · next effect final hexecute =>
          cases hemulate
          exact ⟨bytes, middle, i, hfetch, hselect, hexecute⟩
  · rintro ⟨bytes, middle, i, hfetch, hselect, hexecute⟩
    rw [emulate, hfetch]
    simp only [hselect, hexecute]

/-- What is fetched at a readable encoding is taken for the instruction that the encoding describes. -/
theorem select_encoding {config : EmulatorConfig} {regs : Registers} {memory : σ}
    {prefixes : List Byte} {body : Body} {operation : Operation} (hlegal : body.Legal)
    (hadmits : Admits regs.mode prefixes body)
    (hserves : UserMemory.Serves regs.mode.mask memory regs.ip (prefixes ++ body.bytes))
    (hallows : config.allows body.family = true)
    (hoperation : (describe regs.mode prefixes body).operation? = some operation) :
    ∃ bytes, UserMemory.fetch regs.mode.mask memory regs.ip maxInstructionLength =
        (.ok bytes, afterFetch regs memory) ∧
      config.select regs.mode bytes = .ok (operation, describe regs.mode prefixes body) := by
  obtain ⟨rest, hfetch⟩ := fetch_encoding hadmits hserves
  refine ⟨_, hfetch, ?_⟩
  rw [EmulatorConfig.select_eq_ok_iff, decode_eq_ok_iff]
  exact ⟨⟨prefixes, body, rest, rfl, hlegal, hadmits, rfl⟩, hallows, hoperation⟩

/-- The trap of a readable encoding ends as its execution does. -/
theorem handleTrap_of_execute {config : EmulatorConfig} {regs : Registers} {memory after : σ}
    {prefixes : List Byte} {body : Body} {operation : Operation} {effect : Effect}
    (huser : regs.cs.toNat % 4 = 3) (hlegal : body.Legal)
    (hadmits : Admits regs.mode prefixes body)
    (hserves : UserMemory.Serves regs.mode.mask memory regs.ip (prefixes ++ body.bytes))
    (hallows : config.allows body.family = true)
    (hoperation : (describe regs.mode prefixes body).operation? = some operation)
    (hexecute : operation.execute (describe regs.mode prefixes body) regs (afterFetch regs memory) =
      (.ok effect, after)) :
    handleTrap config regs memory 6 =
      ⟨.handled, effect.commit regs, after, [.emulated regs.ip operation effect.length]⟩ := by
  obtain ⟨bytes, hfetch, hselect⟩ := select_encoding hlegal hadmits hserves hallows hoperation
  have hemulate : emulate config regs memory = (.ok ⟨operation, effect⟩, after) :=
    emulate_eq_ok_iff.mpr ⟨bytes, _, _, hfetch, hselect, hexecute⟩
  exact handleTrap_of_emulate huser hemulate

/-! ## The r/m operand -/

namespace Reference

/-- The register number of the r/m field. -/
def rmRegister (i : Instruction) : Nat := i.modrm.rm.toNat + 8 * i.extension.b.toNat

/-- The r/m operand has the given value.  A register holds it, or `count` bytes of memory at the linear
address do, and reading them leaves the memory in the given state. -/
def ReadsOperand (i : Instruction) (regs : Registers) (count inRegister : Nat)
    (memory after : σ) (value : Nat) : Prop :=
  if i.modrm.md = 3 then after = memory ∧ value = inRegister
  else ∃ cells : Vector Byte count,
    UserMemory.read memory (BitVec.ofInt 64 (linearAddress i regs)) count = (.ok cells, after) ∧
      value = decodeLE cells.toList

theorem effectiveAddress_eq_ofInt {i : Instruction} {regs : Registers} (hmode : i.mode = regs.mode) :
    i.effectiveAddress regs = BitVec.ofInt 64 (linearAddress i regs) := by
  rw [← effectiveAddress_eq hmode, BitVec.ofInt_natCast, BitVec.ofNat_toNat, BitVec.setWidth_eq]

/-- A memory operand is read as the little-endian value of its bytes. -/
theorem readWord_eq {memory after : σ} {address : Address} {count : Nat} {cells : Vector Byte count}
    (hread : UserMemory.read memory address count = (.ok cells, after)) :
    ∃ word : BitVec (8 * count), UserMemory.readWord memory address count = (.ok word, after) ∧
      word.toNat = decodeLE cells.toList := by
  refine ⟨BitVec.ofNat _ (decodeLE cells.toList), ?_, ?_⟩
  · rw [UserMemory.readWord, hread]
  · have hlt : decodeLE cells.toList < 2 ^ (8 * count) := by
      have hbound := decodeLE_lt cells.toList
      rw [Vector.length_toList] at hbound
      rwa [Nat.pow_mul]
    rw [BitVec.toNat_ofNat, Nat.mod_eq_of_lt hlt]

/-- The engines read the operand that the reference describes, given what they find in a register. -/
theorem read_rm {i : Instruction} {regs : Registers} (hmode : i.mode = regs.mode)
    {width : OperandWidth} {inRegister : BitVec width.bits} {memory after : σ} {value : Nat}
    (hregister : (Operand.register i.rmIndex).read regs memory width = (.ok inRegister, memory))
    (hreads : ReadsOperand i regs width.bytes inRegister.toNat memory after value) :
    ∃ word : BitVec width.bits, (i.rm regs).read regs memory width = (.ok word, after) ∧
      word.toNat = value := by
  unfold ReadsOperand at hreads
  by_cases hmd : i.modrm.md = 3
  · rw [if_pos hmd] at hreads
    obtain ⟨rfl, rfl⟩ := hreads
    rw [Instruction.rm_eq_register hmd regs]
    exact ⟨inRegister, hregister, rfl⟩
  · rw [if_neg hmd] at hreads
    obtain ⟨cells, hread, rfl⟩ := hreads
    rw [Instruction.rm_eq_memory hmd regs, effectiveAddress_eq_ofInt hmode]
    exact readWord_eq hread

end Reference

end TrapEmulation
