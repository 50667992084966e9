import TrapEmulation.Proofs.Trap.Forwarding
import TrapEmulation.Proofs.Trap.Locality

/-!
# Disabled families

The configuration is consulted once, between decoding an instruction and looking up its operation.  To
disable a family is therefore to forward the traps of its instructions, those without an operation included,
and no other trap takes notice.
-/

namespace TrapEmulation

variable {σ : Type} [UserMemory σ]

/-! ## The family of an instruction -/

/-- The decoder and the opcode table put an instruction into the same family. -/
theorem family_of_operation? {mode : Mode} {bytes : List Byte} {i : Instruction}
    {operation : Operation} (hdecode : decode mode bytes = .ok i)
    (hoperation : i.operation? = some operation) : operation.family = i.family := by
  obtain ⟨prefixes, body, rest, -, -, -, rfl⟩ := (decode_eq_ok_iff mode bytes i).mp hdecode
  cases operation with
  | bit op => exact (family_of_encodesBit (encodesBit_of_operation? hoperation)).symm
  | compare op => exact (family_of_encodesCompare (encodesCompare_of_operation? hoperation)).symm

/-- What is fetched is one instruction at most. -/
theorem Fetches.unique {regs : Registers} {memory : σ} {i j : Instruction}
    (hi : Fetches regs memory i) (hj : Fetches regs memory j) : i = j := by
  obtain ⟨bytes, hbytes, hdecode⟩ := hi
  obtain ⟨bytes', hbytes', hdecode'⟩ := hj
  rw [hbytes] at hbytes'
  cases hbytes'
  rw [hdecode] at hdecode'
  exact Except.ok.inj hdecode'

/-! ## Selecting an operation -/

namespace EmulatorConfig

/-- Both families are enabled. -/
def full : EmulatorConfig := { bitManipulation := true, stringCompare := true }

theorem allows_full (family : Family) : full.allows family = true := by
  cases family <;> rfl

variable {config : EmulatorConfig} {mode : Mode} {bytes : List Byte}

theorem select_of_disabled {i : Instruction} (hdecode : decode mode bytes = .ok i)
    (hdisabled : config.allows i.family = false) :
    config.select mode bytes = .error (.disabled i.family) := by
  rw [select, hdecode]
  simp only [hdisabled, Bool.false_eq_true, ↓reduceIte]

/-- What is enabled is selected as if nothing were disabled, and fails as if nothing were. -/
theorem select_eq_full (hallows : ∀ i, decode mode bytes = .ok i → config.allows i.family = true) :
    config.select mode bytes = full.select mode bytes := by
  unfold select
  cases hdecode : decode mode bytes with
  | error error => rfl
  | ok i => simp only [hallows i hdecode, allows_full]

end EmulatorConfig

/-! ## Emulation -/

section

variable {config : EmulatorConfig} {regs : Registers} {memory : σ}

/-- An instruction of a disabled family is refused once it has been decoded, and nothing else is read. -/
theorem emulate_of_disabled {i : Instruction} (hfetches : Fetches regs memory i)
    (hdisabled : config.allows i.family = false) :
    emulate config regs memory = (.error (.disabled i.family), afterFetch regs memory) := by
  obtain ⟨bytes, hfetch, hdecode⟩ := hfetches
  exact emulate_of_select_error hfetch (EmulatorConfig.select_of_disabled hdecode hdisabled)

/-- Emulation takes notice of the configuration only if the instruction belongs to a disabled family. -/
theorem emulate_eq_full (hallows : ∀ i, Fetches regs memory i → config.allows i.family = true) :
    emulate config regs memory = emulate .full regs memory := by
  cases hfetch : (UserMemory.fetch regs.mode.mask memory regs.ip maxInstructionLength).1 with
  | error fault => rw [emulate_of_fetch_error hfetch, emulate_of_fetch_error hfetch]
  | ok bytes =>
    have hselect : config.select regs.mode bytes = EmulatorConfig.full.select regs.mode bytes := by
      apply EmulatorConfig.select_eq_full
      intro i hdecode
      exact hallows i ⟨bytes, hfetch, hdecode⟩
    cases hfull : EmulatorConfig.full.select regs.mode bytes with
    | error error =>
      rw [emulate_of_select_error hfetch (hselect.trans hfull), emulate_of_select_error hfetch hfull]
    | ok selected =>
      rw [emulate_of_select hfetch (hselect.trans hfull), emulate_of_select hfetch hfull]

end

/-! ## Traps -/

/-- What is left of the trap of an instruction that belongs to a disabled family. -/
def disabledTrap (regs : Registers) (memory : σ) (family : Family) : TrapResult σ where
  outcome := .forward (.emulation (.disabled family))
  registers := regs
  memory := afterFetch regs memory
  log := [.notEmulated regs.ip (.disabled family)]

/-- A trap is dealt with as if both families were enabled, unless its instruction belongs to a disabled
one. -/
theorem handleTrap_eq_full_or_disabledTrap (config : EmulatorConfig) (regs : Registers) (memory : σ)
    (vector : Byte) :
    handleTrap config regs memory vector = handleTrap .full regs memory vector ∨
      ∃ i, Fetches regs memory i ∧ config.allows i.family = false ∧
        handleTrap config regs memory vector = disabledTrap regs memory i.family := by
  unfold handleTrap
  split
  · exact .inl rfl
  · split
    · exact .inl rfl
    · by_cases hdisabled : ∃ i, Fetches regs memory i ∧ config.allows i.family = false
      · obtain ⟨i, hfetches, hfamily⟩ := hdisabled
        refine .inr ⟨i, hfetches, hfamily, ?_⟩
        rw [emulate_of_disabled hfetches hfamily]
        rfl
      · rw [emulate_eq_full]
        · exact .inl rfl
        · intro i hfetches
          by_contra hfamily
          exact hdisabled ⟨i, hfetches, Bool.eq_false_iff.mpr hfamily⟩

/-- To disable a family removes that family and nothing else.  A trap that is forwarded with both families
enabled is forwarded, for the same reason unless its instruction belongs to a disabled family.  A trap that is
handled with both enabled belongs to the family of its instruction, by the decoder and by the opcode table
alike: it is handled just so where that family is enabled, and forwarded where it is not. -/
theorem handleTrap_removes_family (config : EmulatorConfig) (regs : Registers) (memory : σ)
    (vector : Byte) :
    let full := handleTrap .full regs memory vector
    let trap := handleTrap config regs memory vector
    (∀ reason, full.outcome = .forward reason →
      trap.registers = regs ∧
      (trap.outcome = .forward reason ∨
        ∃ i, Fetches regs memory i ∧ config.allows i.family = false ∧
          trap.outcome = .forward (.emulation (.disabled i.family)))) ∧
    (full.outcome = .handled →
      ∃ i operation, Fetches regs memory i ∧ i.operation? = some operation ∧
        operation.family = i.family ∧ full.log = [.emulated regs.ip operation i.length] ∧
        (config.allows i.family = true → trap = full) ∧
        (config.allows i.family = false →
          trap.outcome = .forward (.emulation (.disabled i.family)) ∧ trap.registers = regs)) := by
  intro full trap
  have hcases := handleTrap_eq_full_or_disabledTrap config regs memory vector
  constructor
  · intro reason hforward
    rcases hcases with hsame | ⟨i, hfetches, hdisabled, htrap⟩
    · have houtcome : trap.outcome = .forward reason := (congrArg TrapResult.outcome hsame).trans hforward
      exact ⟨registers_of_forward houtcome, .inl houtcome⟩
    · exact ⟨congrArg TrapResult.registers htrap,
        .inr ⟨i, hfetches, hdisabled, congrArg TrapResult.outcome htrap⟩⟩
  · intro hhandled
    obtain ⟨huser, hvector, e, after, hemulate⟩ :=
      (emulates_iff _ _ _ _).mp (handled_iff_emulates.mp hhandled)
    obtain rfl : vector = 6 := BitVec.eq_of_toNat_eq hvector
    obtain ⟨bytes, middle, i, hfetch, hselect, hexecute⟩ := emulate_eq_ok_iff.mp hemulate
    obtain ⟨hdecode, -, hoperation⟩ := EmulatorConfig.select_eq_ok_iff.mp hselect
    have hfetches : Fetches regs memory i := ⟨bytes, congrArg Prod.fst hfetch, hdecode⟩
    have hlength : e.effect.length = i.length :=
      Operation.length_of_execute (congrArg Prod.fst hexecute)
    have hlog : full.log = [.emulated regs.ip e.operation i.length] := by
      rw [← hlength]
      exact congrArg TrapResult.log (handleTrap_of_emulate huser hemulate)
    refine ⟨i, e.operation, hfetches, hoperation, family_of_operation? hdecode hoperation, hlog,
      fun hallows ↦ ?_, fun hdisabled ↦ ?_⟩
    · rcases hcases with hsame | ⟨j, hj, hdisabled, -⟩
      · exact hsame
      · rw [hj.unique hfetches, hallows] at hdisabled
        cases hdisabled
    · have hrefused := emulate_of_disabled hfetches hdisabled
      have hnot : ¬ Emulates config regs memory 6 := by
        rintro ⟨-, -, found, hfound⟩
        rw [hrefused] at hfound
        cases hfound
      rcases hcases with hsame | ⟨j, hj, -, htrap⟩
      · have htrapHandled : trap.outcome = .handled := (congrArg TrapResult.outcome hsame).trans hhandled
        exact absurd (handled_iff_emulates.mp htrapHandled) hnot
      · rw [hj.unique hfetches] at htrap
        exact ⟨congrArg TrapResult.outcome htrap, congrArg TrapResult.registers htrap⟩

end TrapEmulation
