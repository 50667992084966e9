import TrapEmulation.Memory.Window
import TrapEmulation.Proofs.Trap.Encodings

/-!
# Streams of emulated instructions

Encodings of emulated operations stand one behind the other in memory, from the instruction pointer
upwards.  One invalid-opcode trap executes the first of them and leaves the instruction pointer at the
second, and so on to the end of the stream.  What is carried from trap to trap is that the instruction
pointer is at a boundary between encodings.
-/

namespace TrapEmulation

open Reference

variable {σ : Type} [UserMemory σ]

/-! ## Layout -/

/-- How far from the start of a stream the encoding with the given number stands. -/
def offset (stream : List Encoding) (k : Nat) : Nat :=
  ((stream.take k).map fun e ↦ e.bytes.length).sum

theorem offset_succ {stream : List Encoding} {k : Nat} (hk : k < stream.length) :
    offset stream (k + 1) = offset stream k + stream[k].bytes.length := by
  rw [offset, offset, List.take_succ_eq_append_getElem hk, List.map_append, List.sum_append,
    List.map_singleton, List.sum_singleton]

/-- Every encoding of a stream that stands in memory stands there itself. -/
theorem holds_getElem {mode : Mode} {memory : σ} {start k : Nat} {stream : List Encoding}
    (hholds : UserMemory.Holds mode memory start (stream.flatMap Encoding.bytes))
    (hk : k < stream.length) :
    UserMemory.Holds mode memory (start + offset stream k) stream[k].bytes := by
  -- What stands before the encoding is as long as its offset, and what follows it does not matter.
  have hsplit : stream.flatMap Encoding.bytes =
      (stream.take k).flatMap Encoding.bytes ++
        (stream[k].bytes ++ (stream.drop (k + 1)).flatMap Encoding.bytes) := by
    rw [← List.flatMap_cons, ← List.drop_eq_getElem_cons hk, ← List.flatMap_append,
      List.take_append_drop]
  rw [hsplit] at hholds
  rw [offset, ← List.length_flatMap]
  exact hholds.right.left

/-! ## Runs -/

/-- The registers and the memory after a number of invalid-opcode traps. -/
def afterTraps (config : EmulatorConfig) (regs : Registers) (memory : σ) : Nat → Registers × σ
  | 0 => (regs, memory)
  | k + 1 =>
    let before := afterTraps config regs memory k
    let trap := handleTrap config before.1 before.2 6
    (trap.registers, trap.memory)

/-- A stream that a user thread can be taken through. -/
structure Runnable (config : EmulatorConfig) (regs : Registers) (memory : σ)
    (stream : List Encoding) : Prop where
  bitManipulation : config.bitManipulation = true
  stringCompare : config.stringCompare = true
  user : regs.cs.toNat % 4 = 3
  pure : UserMemory.Pure memory
  legal : ∀ e ∈ stream, e.Legal regs.mode
  holds : UserMemory.Holds regs.mode memory regs.rip.toNat (stream.flatMap Encoding.bytes)
  /-- The registers that an operand is addressed with are those that the earlier encodings leave. -/
  readable : ∀ k (hk : k < stream.length),
    stream[k].OperandReadable (afterTraps config regs memory k).1 memory

/-- A thread that started with the given registers has come to the encoding with the given number. -/
structure AtBoundary (regs : Registers) (memory : σ) (stream : List Encoding) (k : Nat)
    (state : Registers × σ) : Prop where
  memory : state.2 = memory
  mode : state.1.mode = regs.mode
  cs : state.1.cs = regs.cs
  ip : state.1.ip.toNat = (regs.rip.toNat + offset stream k) % 2 ^ regs.mode.width

namespace Runnable

variable {config : EmulatorConfig} {regs : Registers} {memory : σ} {stream : List Encoding}

/-- A trap at a boundary executes the encoding that stands there. -/
theorem handledBy (hrun : Runnable config regs memory stream) {k : Nat} (hk : k < stream.length)
    (hat : AtBoundary regs memory stream k (afterTraps config regs memory k)) :
    let before := afterTraps config regs memory k
    stream[k].HandledBy config before.1 memory (handleTrap config before.1 before.2 6) := by
  intro before
  have hlegal : stream[k].Legal before.1.mode := by
    rw [hat.mode]
    exact hrun.legal _ (List.getElem_mem hk)
  have huser : before.1.cs.toNat % 4 = 3 := by
    rw [hat.cs]
    exact hrun.user
  have hholds : UserMemory.Holds before.1.mode memory (regs.rip.toNat + offset stream k)
      stream[k].bytes := by
    rw [hat.mode]
    exact holds_getElem hrun.holds hk
  have hip : before.1.ip.toNat % 2 ^ before.1.mode.width =
      (regs.rip.toNat + offset stream k) % 2 ^ before.1.mode.width := by
    rw [hat.ip, hat.mode, Nat.mod_mod]
  rw [hat.memory]
  exact hlegal.handledBy hrun.bitManipulation hrun.stringCompare huser hrun.pure hholds hip
    (hrun.readable k hk)

/-- A trap at a boundary ends at the next one. -/
theorem step (hrun : Runnable config regs memory stream) {k : Nat} (hk : k < stream.length)
    (hat : AtBoundary regs memory stream k (afterTraps config regs memory k)) :
    AtBoundary regs memory stream (k + 1) (afterTraps config regs memory (k + 1)) := by
  have htrap := hrun.handledBy hk hat
  obtain ⟨hmode, hcs⟩ := htrap.executes.frame
  exact {
    memory := htrap.memory
    mode := hmode.trans hat.mode
    cs := hcs.trans hat.cs
    ip := by
      rw [afterTraps, htrap.executes.toNat_ip, hat.mode, hat.ip, offset_succ hk, Nat.mod_add_mod,
        Nat.add_assoc] }

/-- As long as there are encodings left, every number of traps ends at a boundary. -/
theorem atBoundary (hrun : Runnable config regs memory stream) {k : Nat} (hk : k ≤ stream.length) :
    AtBoundary regs memory stream k (afterTraps config regs memory k) := by
  induction k with
  | zero => exact ⟨rfl, rfl, rfl, Mode.toNat_clip regs.mode regs.rip⟩
  | succ k ih => exact hrun.step hk (ih (Nat.le_of_succ_le hk))

end Runnable

/-- A stream is stepped through in order, one encoding with each trap.  The trap with number `k` is
raised at the encoding with that number, executes it on the registers that the earlier traps left, and
does not end where it was raised.  After the last one the instruction pointer is behind the stream. -/
theorem handleTrap_stream {config : EmulatorConfig} {regs : Registers} {memory : σ}
    {stream : List Encoding} (hrun : Runnable config regs memory stream) :
    (∀ k (hk : k < stream.length),
      let before := afterTraps config regs memory k
      let trap := handleTrap config before.1 before.2 6
      before.1.ip.toNat = (regs.rip.toNat + offset stream k) % 2 ^ regs.mode.width ∧
        stream[k].HandledBy config before.1 memory trap ∧
        afterTraps config regs memory (k + 1) = (trap.registers, memory) ∧
        trap.registers.ip ≠ before.1.ip) ∧
      (afterTraps config regs memory stream.length).1.ip.toNat =
        (regs.rip.toNat + (stream.map fun e ↦ e.bytes.length).sum) % 2 ^ regs.mode.width := by
  constructor
  · intro k hk before trap
    have hat := hrun.atBoundary (Nat.le_of_lt hk)
    have htrap : stream[k].HandledBy config before.1 memory trap := hrun.handledBy hk hat
    have hlegal : stream[k].Legal before.1.mode := by
      rw [hat.mode]
      exact hrun.legal _ (List.getElem_mem hk)
    exact ⟨hat.ip, htrap, Prod.ext rfl htrap.memory, htrap.executes.ip_ne hlegal⟩
  · rw [(hrun.atBoundary (Nat.le_refl _)).ip, offset, List.take_length]

/-- A search whose operand is named by its address. -/
def wrappingSearch : Encoding where
  operation := .compare .pcmpistri
  prefixes := [0x66]
  body :=
    { vex := none, map := .map0F3A, opcode := 0x63
      operands := ⟨⟨0, 1, 5⟩, none, some (.disp32 0x10)⟩, immediate := some 0x0C }

/-- A conjunction whose operand stands at the place that the search has found. -/
def wrappingAndn : Encoding where
  operation := .bit .andn
  prefixes := []
  body :=
    { vex := some { r := false, x := false, b := false, w := false, vvvv := 3, mandatory := .absent }
      map := .map0F38, opcode := 0xF2
      operands := ⟨⟨1, 0, 1⟩, none, some (.disp8 0x11)⟩, immediate := none }

/-- The search begins at the end of a 32-bit address space and goes on at its beginning.  The string
"hello world okay" stands behind the stream. -/
def wrappingMemory : AddressSpace :=
  [⟨0xFFFFFFFA, #[0x66, 0x0F, 0x3A, 0x63, 0x0D, 0x10]⟩,
    ⟨0x0, #[0x00, 0x00, 0x00, 0x0C, 0xC4, 0xE2, 0x60, 0xF2, 0x41, 0x11, 0x00, 0x00, 0x00, 0x00, 0x00,
      0x00, 0x68, 0x65, 0x6C, 0x6C, 0x6F, 0x20, 0x77, 0x6F, 0x72, 0x6C, 0x64, 0x20, 0x6F, 0x6B, 0x61,
      0x79]⟩]

/-- The string "lo" is searched for. -/
def wrappingRegisters : Registers :=
  { (Registers.initial .bits32).setXmm 1 0x6F6C with rip := 0xFFFFFFFA }

theorem legal_wrappingSearch : wrappingSearch.Legal .bits32 := by
  refine ⟨⟨fun _ ↦ by decide, by rintro v ⟨⟩, rfl, rfl⟩, ?_, ?_⟩
  · refine ⟨.inr (.inr ⟨rfl, rfl, by decide⟩), ⟨⟨by decide, by decide, by decide⟩, by decide, ?_, ?_,
      ?_⟩, by decide⟩
    · rintro s ⟨⟩
    · simp [wrappingSearch]
    · simp [wrappingSearch, OperandBytes.LacksBase]
  · exact ⟨by decide, by decide, by decide, ⟨by rintro ⟨⟩, by rintro _ v ⟨⟩⟩, by decide⟩

theorem legal_wrappingAndn : wrappingAndn.Legal .bits32 := by
  refine ⟨⟨⟨_, rfl, rfl, by decide⟩, rfl, rfl, by rintro digit ⟨⟩⟩, ?_, ?_⟩
  · refine ⟨.inl ⟨rfl, rfl, by decide⟩, ⟨⟨by decide, by decide, by decide⟩, by decide, ?_, ?_, ?_⟩,
      by decide⟩
    · rintro s ⟨⟩
    · simp [wrappingAndn]
    · simp [wrappingAndn]
  · refine ⟨by decide, by decide, by decide, ⟨fun _ ↦ by decide, ?_⟩, by decide⟩
    rintro _ v ⟨⟩
    exact ⟨rfl, rfl⟩

theorem handleTrap_wrappingStream :
    Runnable {} wrappingRegisters wrappingMemory [wrappingSearch, wrappingAndn] ∧
      (afterTraps {} wrappingRegisters wrappingMemory 2).1.ip.toNat = 10 := by
  have hfirst : wrappingSearch.OperandReadable wrappingRegisters wrappingMemory :=
    fun _ ↦ ⟨#v[0x68, 0x65, 0x6C, 0x6C, 0x6F, 0x20, 0x77, 0x6F, 0x72, 0x6C, 0x64, 0x20, 0x6F, 0x6B,
      0x61, 0x79], rfl⟩
  have hfound : (afterTraps {} wrappingRegisters wrappingMemory 1).1 =
      { wrappingRegisters.setGpr 1 3 with rip := 4, rflags := 0x83 } := by
    decide +kernel
  have hsecond : wrappingAndn.OperandReadable (afterTraps {} wrappingRegisters wrappingMemory 1).1
      wrappingMemory := by
    rw [hfound]
    exact fun _ ↦ ⟨#v[0x6F, 0x20, 0x77, 0x6F], rfl⟩
  have hrun : Runnable {} wrappingRegisters wrappingMemory [wrappingSearch, wrappingAndn] := {
    bitManipulation := rfl
    stringCompare := rfl
    user := by decide
    pure := fun _ _ ↦ rfl
    legal := List.forall_mem_cons.mpr
      ⟨legal_wrappingSearch, List.forall_mem_singleton.mpr legal_wrappingAndn⟩
    holds := by
      unfold UserMemory.Holds
      decide +kernel
    readable := by
      intro k hk
      match k with
      | 0 => exact hfirst
      | 1 => exact hsecond }
  exact ⟨hrun, (handleTrap_stream hrun).2.trans (by decide)⟩

end TrapEmulation
