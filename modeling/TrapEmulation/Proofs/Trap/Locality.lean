import TrapEmulation.Memory.Window
import TrapEmulation.Proofs.Encoding.Stability
import TrapEmulation.Proofs.Memory.Agreement
import TrapEmulation.Proofs.Trap.Execution

/-!
# What emulation depends on

An emulated instruction is determined by its own bytes and by its memory operand.  Two memories that answer
alike there give the same result, whatever else they hold and wherever else they can be read.  An instruction
that is cut off in front of a byte which cannot be read is not emulated, and the error tells whether any of it
was there.
-/

namespace TrapEmulation

open Reference

variable {σ τ : Type} [UserMemory σ] [UserMemory τ]

/-! ## Reads of an instruction -/

/-- Two memories answer alike where an instruction stands and, if it has a memory operand, where that
stands. -/
structure AlikeFor (operation : Operation) (i : Instruction) (regs : Registers) (memory : σ)
    (other : τ) : Prop where
  bytes : ∀ k < i.length, UserMemory.AnswersAlike memory other
    (BitVec.ofNat 64 ((regs.rip.toNat + k) % 2 ^ regs.mode.width)) 1
  operand : i.modrm.md ≠ 3 → UserMemory.AnswersAlike memory other
    (BitVec.ofInt 64 (linearAddress i regs)) (operandBytes operation i)

theorem AlikeFor.answersAlike {operation : Operation} {i : Instruction} {regs : Registers} {memory : σ}
    {other : τ} (halike : AlikeFor operation i regs memory other) (hmode : i.mode = regs.mode)
    (hmemory : i.modrm.md ≠ 3) :
    UserMemory.AnswersAlike memory other (i.effectiveAddress regs) (operandBytes operation i) := by
  rw [effectiveAddress_eq_ofInt hmode]
  exact halike.operand hmemory

/-! ## Emulation -/

theorem toNat_ip_mod (regs : Registers) :
    regs.ip.toNat % 2 ^ regs.mode.width = regs.rip.toNat % 2 ^ regs.mode.width := by
  rw [Registers.ip, Mode.toNat_clip, Nat.mod_mod]

/-- What is emulated on one memory is emulated on every other that answers alike for the instruction. -/
theorem emulate_of_alikeFor {config : EmulatorConfig} {regs : Registers} {memory : σ} {other : τ}
    {bytes : List Byte} {e : Emulated} {i : Instruction} (hpure : UserMemory.Pure memory)
    (hother : UserMemory.Pure other)
    (hfetch : (UserMemory.fetch regs.mode.mask memory regs.ip maxInstructionLength).1 = .ok bytes)
    (hselect : config.select regs.mode bytes = .ok (e.operation, i))
    (hexecute : (e.operation.execute i regs memory).1 = .ok e.effect)
    (halike : AlikeFor e.operation i regs memory other) :
    (emulate config regs other).1 = .ok e := by
  obtain ⟨hallows, encoding, rest, hlegal, rfl, hoperation, rfl⟩ :=
    Encoding.selects_iff_exists_encoding.mp hselect
  -- The other memory holds the instruction, though it may hold something else behind it.
  have hserves : UserMemory.Serves regs.mode.mask other regs.ip encoding.bytes := by
    have hfetched : UserMemory.Holds regs.mode memory regs.rip.toNat (encoding.bytes ++ rest) :=
      hpure.holds_of_fetch hfetch (toNat_ip_mod regs)
    have hheld : UserMemory.Holds regs.mode other regs.rip.toNat encoding.bytes := by
      apply hfetched.left.transfer
      intro k hk
      rw [← Encoding.length_instruction encoding regs.mode] at hk
      exact halike.bytes k hk
    exact hheld.serves hother (toNat_ip_mod regs)
  obtain ⟨found, hfound, hselected⟩ :=
    select_encoding hlegal.body hlegal.admits hserves hallows hlegal.operation?_eq
  have hafter : afterFetch regs other = other := hother.fetch _ _
  have hsame : (e.operation.execute (encoding.instruction regs.mode) regs other).1 = .ok e.effect := by
    rw [← Operation.execute_congr (halike.answersAlike rfl), hexecute]
  rw [hafter] at hfound
  rw [hoperation] at hselected
  exact congrArg Prod.fst
    (emulate_eq_ok_iff.mpr ⟨found, other, _, hfound, hselected, Prod.ext hsame rfl⟩)

/-- A legal encoding that is cut off calls for more bytes. -/
theorem Encoding.Legal.decode_take {mode : Mode} {encoding : Encoding} (hlegal : encoding.Legal mode)
    {k : Nat} (hk : k < encoding.bytes.length) :
    decode mode (encoding.bytes.take k) = .error .unexpectedEnd := by
  have hwhole : decode mode encoding.bytes = .ok (encoding.instruction mode) :=
    (decode_eq_ok_iff _ _ _).mpr
      ⟨_, _, [], (List.append_nil _).symm, hlegal.body, hlegal.admits, rfl⟩
  by_contra hdecided
  -- Any other answer would be the answer on the whole encoding, which is longer.
  have hshort := decode_append hdecided (encoding.bytes.drop k)
  rw [List.take_append_drop, hwhole] at hshort
  have hle := (decode_take_length hshort.symm).1
  rw [Encoding.length_instruction, List.length_take] at hle
  omega

/-- Emulation of an encoding that is cut off fails.  The fault shows if no byte could be read, and
otherwise the bytes that could be read are too few. -/
theorem emulate_of_cut (config : EmulatorConfig) {regs : Registers} {memory : σ} {encoding : Encoding}
    {k : Nat} {fault : MemoryFault} (hpure : UserMemory.Pure memory) (hlegal : encoding.Legal regs.mode)
    (hk : k < encoding.bytes.length)
    (hholds : UserMemory.Holds regs.mode memory regs.rip.toNat (encoding.bytes.take k))
    (hend : (UserMemory.read memory
      (BitVec.ofNat 64 ((regs.rip.toNat + k) % 2 ^ regs.mode.width)) 1).1 = .error fault) :
    (emulate config regs memory).1 = .error (if k = 0 then .fetch fault else .decode .unexpectedEnd) := by
  have hlength : (encoding.bytes.take k).length = k :=
    List.length_take_of_le (Nat.le_of_lt hk)
  have hcount : (encoding.bytes.take k).length < maxInstructionLength := by
    rw [hlength]
    exact Nat.lt_of_lt_of_le hk hlegal.length_le_fifteen
  have hfetch := hholds.fetch_eq hpure (by rw [hlength]; exact hend) (toNat_ip_mod regs) hcount
  cases k with
  | zero => exact congrArg Prod.fst (emulate_of_fetch_error hfetch)
  | succ k =>
    have hne : encoding.bytes.take (k + 1) ≠ [] := by
      intro hnil
      rw [hnil] at hlength
      cases hlength
    rw [if_neg hne] at hfetch
    have hselect : config.select regs.mode (encoding.bytes.take (k + 1)) =
        .error (.decode .unexpectedEnd) := by
      rw [EmulatorConfig.select, hlegal.decode_take hk]
    exact congrArg Prod.fst (emulate_of_select_error hfetch hselect)

/-- An emulated instruction is determined by its own bytes and its memory operand: every memory that
answers alike there gives the same result.  An encoding that is cut off fails to be fetched if none of it can
be read, and fails to be decoded otherwise. -/
theorem emulate_local {config : EmulatorConfig} {regs : Registers} {memory : σ}
    (hpure : UserMemory.Pure memory) :
    (∀ e, (emulate config regs memory).1 = .ok e →
      ∃ i, Fetches regs memory i ∧ i.operation? = some e.operation ∧ i.length = e.effect.length ∧
        ∀ {τ : Type} [UserMemory τ] (other : τ), UserMemory.Pure other →
          AlikeFor e.operation i regs memory other → (emulate config regs other).1 = .ok e) ∧
    ∀ (encoding : Encoding) (k : Nat) (fault : MemoryFault), encoding.Legal regs.mode →
      k < encoding.bytes.length →
      UserMemory.Holds regs.mode memory regs.rip.toNat (encoding.bytes.take k) →
      (UserMemory.read memory
        (BitVec.ofNat 64 ((regs.rip.toNat + k) % 2 ^ regs.mode.width)) 1).1 = .error fault →
      (emulate config regs memory).1 =
        .error (if k = 0 then .fetch fault else .decode .unexpectedEnd) := by
  constructor
  · intro e hemulate
    obtain ⟨bytes, middle, i, hfetch, hselect, hexecute⟩ :=
      emulate_eq_ok_iff.mp (Prod.ext hemulate rfl)
    obtain ⟨hdecode, -, hoperation⟩ := EmulatorConfig.select_eq_ok_iff.mp hselect
    have hmiddle : middle = memory := by
      rw [← hpure.fetch regs.ip maxInstructionLength, hfetch]
    rw [hmiddle] at hexecute
    have hfetched := congrArg Prod.fst hfetch
    have hexecuted := congrArg Prod.fst hexecute
    refine ⟨i, ⟨bytes, hfetched, hdecode⟩, hoperation, (Operation.length_of_execute hexecuted).symm, ?_⟩
    intro τ _ other hother halike
    exact emulate_of_alikeFor hpure hother hfetched hselect hexecuted halike
  · intro encoding k fault hlegal hk hholds hend
    exact emulate_of_cut config hpure hlegal hk hholds hend

/-- The lowest set bit of a memory operand. -/
def pageEndBlsi : Encoding where
  operation := .bit .blsi
  prefixes := []
  body :=
    { vex := some { r := false, x := false, b := false, w := false, vvvv := 3, mandatory := .absent }
      map := .map0F38, opcode := 0xF3
      operands := ⟨⟨0, 3, 3⟩, none, none⟩, immediate := none }

def pageEndRegisters : Registers :=
  { (Registers.initial .bits64).setGpr 3 0x3000 with rip := 0xFFB }

/-- The instruction ends where a page ends, and its operand stands alone. -/
def pageEndMemory : AddressSpace :=
  [⟨0xFFB, #[0xC4, 0xE2, 0x60, 0xF3, 0x1B]⟩, ⟨0x3000, #[0x18, 0x00, 0x00, 0x00]⟩]

/-- Other bytes stand around the instruction and around its operand. -/
def crowdedMemory : AddressSpace :=
  [⟨0xFFA, #[0x66, 0xC4, 0xE2, 0x60, 0xF3, 0x1B, 0xF0, 0xF0]⟩,
    ⟨0x2FFF, #[0xFF, 0x18, 0x00, 0x00, 0x00, 0xFF]⟩]

/-- Two bytes of the instruction are missing. -/
def cutMemory : AddressSpace := [⟨0xFFB, #[0xC4, 0xE2, 0x60]⟩]

def pageEndResult : Emulated where
  operation := .bit .blsi
  effect :=
    { writes := [.gpr 3 8]
      flags := some (.ofList [(.zero, false), (.sign, false), (.carry, true), (.overflow, false)])
      length := 5 }

theorem legal_pageEndBlsi : pageEndBlsi.Legal .bits64 := by
  refine ⟨⟨⟨_, rfl, rfl, by decide⟩, rfl, rfl, ?_⟩, ?_, ?_⟩
  · intro digit hdigit
    cases hdigit
    rfl
  · refine ⟨.inl ⟨rfl, rfl, by decide⟩, ⟨⟨by decide, by decide, by decide⟩, by decide, ?_, ?_, ?_⟩,
      by decide⟩
    · rintro s ⟨⟩
    · simp [pageEndBlsi]
    · simp [pageEndBlsi, OperandBytes.LacksBase]
  · exact ⟨by decide, by decide, by rintro ⟨⟩, ⟨fun _ ↦ by decide, by rintro ⟨⟩⟩, by decide⟩

theorem emulate_local_pageEnd :
    (emulate {} pageEndRegisters pageEndMemory).1 = .ok pageEndResult ∧
      (emulate {} pageEndRegisters crowdedMemory).1 = .ok pageEndResult ∧
      (emulate {} pageEndRegisters cutMemory).1 = .error (.decode .unexpectedEnd) := by
  have hresult : (emulate {} pageEndRegisters pageEndMemory).1 = .ok pageEndResult := by
    rfl
  have hpure (memory : AddressSpace) : UserMemory.Pure memory := fun _ _ ↦ rfl
  obtain ⟨i, ⟨bytes, hfetch, hdecode⟩, -, -, hlocal⟩ :=
    (emulate_local (hpure pageEndMemory)).1 pageEndResult hresult
  have hbytes : bytes = pageEndBlsi.bytes := by
    cases hfetch
    rfl
  have hinstruction : i = pageEndBlsi.instruction .bits64 := by
    rw [hbytes] at hdecode
    cases hdecode
    rfl
  have halike : AlikeFor (.bit .blsi) i pageEndRegisters pageEndMemory crowdedMemory := by
    rw [hinstruction]
    refine ⟨?_, fun _ ↦ rfl⟩
    unfold UserMemory.AnswersAlike
    decide +kernel
  refine ⟨hresult, hlocal crowdedMemory (hpure _) halike, ?_⟩
  exact (emulate_local (hpure cutMemory)).2 pageEndBlsi 3 ⟨0xFFE⟩ legal_pageEndBlsi (by decide)
    (by unfold UserMemory.Holds; decide +kernel) rfl

end TrapEmulation
