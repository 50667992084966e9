import TrapEmulation.Memory.Window
import TrapEmulation.Proofs.Encoding.WriteBack
import TrapEmulation.Proofs.Reference.Footprint
import TrapEmulation.Proofs.Trap.Encodings
import TrapEmulation.Proofs.Trap.Forwarding

/-!
# What a handled fault leaves alone

A fault that is handled changes the registers in the footprint of its instruction, some flags and the
instruction pointer, and nothing else.  Nothing is assumed about the bytes at the instruction pointer: the
instruction is whatever has been fetched and decoded there.
-/

namespace TrapEmulation

open Changes Reference

variable {σ : Type} [UserMemory σ]

/-! ## The engines -/

namespace BitManip

variable {w : Nat}

theorem exists_keepsTo_quietResult (hw : w ≤ 64) (i : Instruction) {index : Nat} (hindex : index < 16)
    (value : BitVec w) (regs : Registers) :
    ∃ changes : Changes, (quietResult i index value).commit regs = changes.apply i.length regs ∧
      changes.KeepsTo { gprs := [index] } w :=
  ⟨_, commit_quietResult hw i hindex value regs, rfl, rfl, rfl,
    List.forall_mem_singleton.mpr value.isLt⟩

theorem exists_keepsTo_productResult (hw : w ≤ 64) {i : Instruction} (hindex : i.regIndex < 16)
    (high low : BitVec w) (regs : Registers) :
    ∃ changes : Changes, (productResult i high low).commit regs = changes.apply i.length regs ∧
      changes.KeepsTo { gprs := [i.regIndex, i.vvvv.toNat] } w := by
  refine ⟨_, commit_productResult hw hindex high low regs, rfl, rfl, rfl, ?_⟩
  exact List.forall_mem_cons.mpr ⟨high.isLt, List.forall_mem_singleton.mpr low.isLt⟩

theorem exists_keepsTo_result (hw : w ≤ 64) (i : Instruction) {index : Nat} (hindex : index < 16)
    (value : BitVec w) (flags : List (Flag × Bool)) (hne : flags ≠ [])
    (hnodup : (flags.map Prod.fst).Nodup) (regs : Registers) :
    ∃ changes : Changes,
      (result i index (value, .ofList flags)).commit regs = changes.apply i.length regs ∧
      changes.KeepsTo { gprs := [index], flags := flags.map Prod.fst } w := by
  refine ⟨_, commit_result hw i hindex value hne hnodup regs, rfl, rfl, ?_,
    List.forall_mem_singleton.mpr value.isLt⟩
  change (positions flags).map Prod.fst = (flags.map Prod.fst).map Flag.position
  rw [positions, List.map_map, List.map_map]
  rfl

/-- A bit-manipulation operation keeps to its footprint, and its results to its width. -/
theorem exists_keepsTo (op : BitOp) {i : Instruction} (hindex : i.regIndex < 16) (hw : w ≤ 64)
    (regs : Registers) (rm : BitVec w) :
    ∃ changes : Changes, (effect op i regs rm).commit regs = changes.apply i.length regs ∧
      changes.KeepsTo (footprint (.bit op) i) w := by
  have hvvvv : i.vvvv.toNat < 16 := i.vvvv.isLt
  have hreporting {index : Nat} (hindex : index < 16) (value : BitVec w) (carry : Bool) :=
    exists_keepsTo_result hw i hindex value [(.zero, value == 0), (.sign, value.msb),
      (.carry, carry), (.overflow, false)] (List.cons_ne_nil _ _) (by simp) regs
  cases op with
  | rorx => exact exists_keepsTo_quietResult hw i hindex _ regs
  | andn => exact hreporting hindex _ _
  | blsr => exact hreporting hvvvv _ _
  | blsmsk => exact exists_keepsTo_result hw i hvvvv _ _ (List.cons_ne_nil _ _) (by simp) regs
  | blsi => exact hreporting hvvvv _ _
  | bzhi => exact hreporting hindex _ _
  | pext => exact exists_keepsTo_quietResult hw i hindex _ regs
  | pdep => exact exists_keepsTo_quietResult hw i hindex _ regs
  | mulx => exact exists_keepsTo_productResult hw hindex _ _ regs
  | bextr => exact exists_keepsTo_result hw i hindex _ _ (List.cons_ne_nil _ _) (by simp) regs
  | shlx => exact exists_keepsTo_quietResult hw i hindex _ regs
  | sarx => exact exists_keepsTo_quietResult hw i hindex _ regs
  | shrx => exact exists_keepsTo_quietResult hw i hindex _ regs

end BitManip

/-- A string comparison keeps to its footprint, and a position takes few bits. -/
theorem StringCompare.exists_keepsTo (op : CompareOp) (i : Instruction) (regs : Registers)
    (b : BitVec 128) :
    ∃ changes : Changes, (effect op i regs b).commit regs = changes.apply i.length regs ∧
      changes.KeepsTo (compareFootprint op) 32 := by
  refine ⟨_, commit_effect op i regs b, ?_, ?_, ?_, ?_⟩
  · cases op <;> rfl
  · cases op <;> rfl
  · cases op <;> rfl
  · have hposition : position (controlOf i / 64 % 2 == 1) (elementCount (controlOf i))
        (resultAt (controlOf i) (stringsOf op i regs b.toNat)) < 2 ^ 32 := by
      apply Nat.lt_of_le_of_lt (position_le _ _ _)
      exact Nat.lt_of_le_of_lt (elementCount_le _) (by decide)
    cases op with
    | pcmpestrm => exact List.forall_mem_nil _
    | pcmpestri => exact List.forall_mem_singleton.mpr hposition
    | pcmpistrm => exact List.forall_mem_nil _
    | pcmpistri => exact List.forall_mem_singleton.mpr hposition

/-- The width of the results of an operation, in bits. -/
def resultBits (operation : Operation) (i : Instruction) : Nat :=
  match operation with
  | .bit _ => width i
  | .compare _ => 32

/-- Executing any operation keeps to its footprint. -/
theorem Operation.exists_keepsTo {operation : Operation} {i : Instruction} {regs : Registers}
    {memory : σ} {effect : Effect} (hindex : i.regIndex < 16)
    (hexecute : (operation.execute i regs memory).1 = .ok effect) :
    ∃ changes : Changes, effect.commit regs = changes.apply i.length regs ∧
      changes.KeepsTo (footprint operation i) (resultBits operation i) := by
  cases operation with
  | bit op =>
    obtain ⟨rm, rfl⟩ := BitManip.exists_eq_effect hexecute
    rw [resultBits, ← BitManip.bits_gprWidth]
    have hwidth := BitManip.width_le i
    rw [← BitManip.bits_gprWidth] at hwidth
    exact BitManip.exists_keepsTo op hindex hwidth regs rm
  | compare op =>
    obtain ⟨b, rfl⟩ := StringCompare.exists_eq_effect hexecute
    exact StringCompare.exists_keepsTo op i regs b

/-! ## The instruction -/

/-- Bit-manipulation operations have VEX encodings only. -/
theorem isVex_of_operation? {op : BitOp} {i : Instruction} (h : i.operation? = some (.bit op)) :
    i.isVex = true := by
  obtain ⟨row, hrow, hoperation, -, -, -, -, -, hvexOnly⟩ := exists_row op
  rw [← hoperation, operation?_eq_some_iff hrow, OpcodeRow.covers_iff] at h
  obtain ⟨-, -, -, -, hvex, -⟩ := h
  exact hvex hvexOnly

/-- Without the wide bit of a VEX encoding in 64-bit code, results have 32 bits. -/
theorem resultBits_of_narrow {operation : Operation} {i : Instruction}
    (h : i.operation? = some operation)
    (hnarrow : ¬ (i.mode = .bits64 ∧ i.isVex = true ∧ i.extension.w = true)) :
    resultBits operation i = 32 := by
  cases operation with
  | compare op => rfl
  | bit op =>
    have hvex := isVex_of_operation? h
    change width i = 32
    unfold width
    cases hmode : i.mode with
    | bits32 => rfl
    | bits64 =>
      cases hw : i.extension.w with
      | false => rfl
      | true => exact absurd ⟨hmode, hvex, hw⟩ hnarrow

/-- What is fetched and decoded is an instruction of the mode whose fields make sense. -/
theorem Fetches.canonical {regs : Registers} {memory : σ} {i : Instruction}
    (h : Fetches regs memory i) : i.mode = regs.mode ∧ i.Canonical ∧ i.regIndex < 16 := by
  obtain ⟨bytes, -, hdecode⟩ := h
  obtain ⟨hmode, hcanonical⟩ := canonical_of_decode hdecode
  exact ⟨hmode, hcanonical, regIndex_lt_sixteen hcanonical.operands.modrm_fits⟩

/-! ## The frame -/

/-- What the registers after a handled fault have to do with those before it. -/
structure Confined (operation : Operation) (i : Instruction) (regs after : Registers) : Prop where
  mode : after.mode = regs.mode
  cs : after.cs = regs.cs
  fsBase : after.fsBase = regs.fsBase
  gsBase : after.gsBase = regs.gsBase
  rip : after.rip.toNat = (regs.rip.toNat + i.length) % 2 ^ regs.mode.width
  rip_ne : after.rip ≠ regs.rip
  /-- Apart from the six arithmetic flags only reserved bit 1 can change, and only to one. -/
  otherFlags : ∀ position, position ∉ [0, 2, 4, 6, 7, 11] → position ≠ 1 →
    after.rflags.getLsbD position = regs.rflags.getLsbD position
  reservedFlag : after.rflags.getLsbD 1 = regs.rflags.getLsbD 1 ∨ after.rflags.getLsbD 1 = true
  quiet : operation ∈ [.bit .rorx, .bit .pext, .bit .pdep, .bit .mulx, .bit .shlx, .bit .sarx,
    .bit .shrx] → after.rflags = regs.rflags
  bitFlags : operation.family = .bitManipulation → ∀ flag ∈ [Flag.adjust, .parity, .direction],
    after.rflags.getLsbD flag.position = regs.rflags.getLsbD flag.position
  gprs : ∀ index < 16, after.gpr index ≠ regs.gpr index → index ∈ (footprint operation i).gprs
  gprs_length : (footprint operation i).gprs.length ≤ if operation = .bit .mulx then 2 else 1
  xmms : ∀ index < 16, after.xmm index ≠ regs.xmm index →
    index = 0 ∧ (operation = .compare .pcmpestrm ∨ operation = .compare .pcmpistrm)
  /-- Only the wide bit of a VEX encoding in 64-bit code makes a result wider than 32 bits. -/
  narrow : ¬ (regs.mode = .bits64 ∧ i.isVex = true ∧ i.extension.w = true) →
    ∀ index ∈ (footprint operation i).gprs, (after.gpr index).toNat < 2 ^ 32
  lowRegisters : regs.mode = .bits32 → ∀ index, 8 ≤ index → index < 16 →
    after.gpr index = regs.gpr index ∧ after.xmm index = regs.xmm index

/-- Changes that keep to the footprint of a decoded instruction are confined. -/
theorem Changes.KeepsTo.confined {operation : Operation} {i : Instruction} {changes : Changes}
    (hkeeps : changes.KeepsTo (footprint operation i) (resultBits operation i))
    {regs : Registers} (hmode : i.mode = regs.mode) (hcanonical : i.Canonical)
    (hindex : i.regIndex < 16) (hoperation : i.operation? = some operation) :
    Confined operation i regs (changes.apply i.length regs) := by
  have hrip := toNat_rip_apply changes i.length regs
  constructor
  case mode => exact mode_apply changes i.length regs
  case cs => exact cs_apply changes i.length regs
  case fsBase => exact fsBase_apply changes i.length regs
  case gsBase => exact gsBase_apply changes i.length regs
  case rip => exact hrip
  case rip_ne =>
    have hpositive : 0 < i.length := Nat.lt_of_lt_of_le (by decide) hcanonical.length_ge
    intro heq
    rw [heq] at hrip
    exact regs.mode.add_mod_width_ne hpositive hcanonical.length_le hrip.symm
  case otherFlags =>
    intro position hposition hreserved
    refine hkeeps.getLsbD_rflags_eq ?_ hreserved i.length regs
    rintro flag hflag rfl
    exact hposition (position_mem_of_mem_flags hflag)
  case reservedFlag => exact hkeeps.getLsbD_rflags_one i.length regs
  case quiet =>
    intro hquiet
    exact hkeeps.rflags_eq (flags_eq_nil_of_quiet hquiet) i.length regs
  case bitFlags =>
    intro hfamily flag hmem
    have hnotMem : flag ∉ (footprint operation i).flags := by
      cases operation with
      | bit op => exact notMem_reportedFlags op flag hmem
      | compare op => cases hfamily
    refine hkeeps.getLsbD_rflags_eq ?_ (by cases flag <;> decide) i.length regs
    intro other hother hposition
    rw [position_injective hposition] at hother
    exact hnotMem hother
  case gprs =>
    intro index hlt hchanged
    by_contra hnotMem
    exact hchanged (hkeeps.gpr_eq hlt hnotMem i.length regs)
  case gprs_length => exact length_gprs_footprint_le operation i
  case xmms =>
    intro index hlt hchanged
    by_contra hnot
    exact hchanged (hkeeps.xmm_eq hlt (fun hmem ↦ hnot (eq_zero_of_mem_xmms hmem)) i.length regs)
  case narrow =>
    intro hnarrow index hmem
    rw [← hmode] at hnarrow
    rw [← resultBits_of_narrow hoperation hnarrow]
    have hlt : index < 16 := lt_of_mem_gprs (by decide) hindex hcanonical.vvvv_lt hmem
    exact hkeeps.toNat_gpr_lt hlt hmem i.length regs
  case lowRegisters =>
    intro hbits32 index hge hlt
    obtain ⟨hreg, -, hvvvv⟩ := hcanonical.registers_lt (hmode.trans hbits32)
    constructor
    · apply hkeeps.gpr_eq hlt
      intro hmem
      exact absurd (lt_of_mem_gprs (by decide) hreg hvvvv hmem) (Nat.not_lt_of_le hge)
    · apply hkeeps.xmm_eq hlt
      intro hmem
      have hzero := (eq_zero_of_mem_xmms hmem).1
      omega

/-- A fault is handled only if its instruction is emulated. -/
theorem exists_emulate_of_handled {config : EmulatorConfig} {regs : Registers} {memory : σ}
    {vector : Byte} (h : (handleTrap config regs memory vector).outcome = .handled) :
    ∃ e after, emulate config regs memory = (.ok e, after) ∧
      (handleTrap config regs memory vector).registers = e.effect.commit regs := by
  obtain ⟨huser, hvector, e, after, hemulate⟩ :=
    (emulates_iff _ _ _ _).mp (handled_iff_emulates.mp h)
  obtain rfl : vector = 6 := BitVec.eq_of_toNat_eq hvector
  refine ⟨e, after, hemulate, ?_⟩
  rw [handleTrap_of_emulate huser hemulate]

/-- A handled fault changes only what the instruction at the instruction pointer may change. -/
theorem handleTrap_confined {config : EmulatorConfig} {regs : Registers} {memory : σ} {vector : Byte}
    (h : (handleTrap config regs memory vector).outcome = .handled) :
    ∃ operation i, Fetches regs memory i ∧ i.operation? = some operation ∧
      5 ≤ i.length ∧ i.length ≤ 15 ∧
      Confined operation i regs (handleTrap config regs memory vector).registers := by
  obtain ⟨e, after, hemulate, hregisters⟩ := exists_emulate_of_handled h
  obtain ⟨bytes, middle, i, hfetch, hselect, hexecute⟩ := emulate_eq_ok_iff.mp hemulate
  obtain ⟨hdecode, -, hoperation⟩ := EmulatorConfig.select_eq_ok_iff.mp hselect
  have hfetches : Fetches regs memory i := ⟨bytes, congrArg Prod.fst hfetch, hdecode⟩
  obtain ⟨hmode, hcanonical, hindex⟩ := hfetches.canonical
  obtain ⟨changes, hcommit, hkeeps⟩ :=
    Operation.exists_keepsTo hindex (congrArg Prod.fst hexecute)
  refine ⟨e.operation, i, hfetches, hoperation, hcanonical.length_ge, hcanonical.length_le, ?_⟩
  rw [hregisters, hcommit]
  exact hkeeps.confined hmode hcanonical hindex hoperation

/-- A product in 32-bit code that stands across the end of the address space. -/
def wrappingProduct : Instruction where
  mode := .bits32
  vex := some .threeByte
  extension := {}
  vvvv := 3
  mandatory := .pF2
  map := .map0F38
  opcode := 0xF6
  modrm := ⟨3, 0, 1⟩
  sib := none
  displacement := none
  immediate := none
  segment := none
  addressSizeOverride := false
  family := .bitManipulation
  length := 5

def wrappingProductRegisters : Registers :=
  { ((Registers.initial .bits32).setGpr 1 2).setGpr 2 0xFFFFFFFF with rip := 0xFFFFFFFD }

def wrappingProductMemory : AddressSpace :=
  [⟨0xFFFFFFFD, #[0xC4, 0xE2, 0x63]⟩, ⟨0, #[0xF6, 0xC1]⟩]

theorem handleTrap_confined_wrappingProduct :
    let trap := handleTrap {} wrappingProductRegisters wrappingProductMemory 6
    trap.outcome = .handled ∧ (footprint (.bit .mulx) wrappingProduct).gprs = [0, 3] ∧
      Confined (.bit .mulx) wrappingProduct wrappingProductRegisters trap.registers := by
  intro trap
  have houtcome : trap.outcome = .handled := by
    rfl
  obtain ⟨operation, i, ⟨bytes, hfetch, hdecode⟩, hoperation, -, -, hconfined⟩ :=
    handleTrap_confined houtcome
  have hbytes : bytes = [0xC4, 0xE2, 0x63, 0xF6, 0xC1] := by
    cases hfetch
    rfl
  have hinstruction : i = wrappingProduct := by
    rw [hbytes] at hdecode
    cases hdecode
    rfl
  have hmulx : operation = .bit .mulx := by
    rw [hinstruction] at hoperation
    cases hoperation
    rfl
  rw [hinstruction, hmulx] at hconfined
  exact ⟨houtcome, rfl, hconfined⟩

end TrapEmulation
