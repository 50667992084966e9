import TrapEmulation.Proofs.Trap.Handled
import TrapEmulation.Trap.ErrorTrap

/-!
# Emulate or forward

A fault is either emulated, and the host's own routine never hears of it, or it is passed on to that
routine once and just as it arrived.  `hostCalls` lists what the routine is called with.
-/

namespace TrapEmulation

variable {σ ω : Type} [UserMemory σ]

/-! ## The dispatcher -/

/-- The trap is one that the dispatcher is for, and its instruction can be emulated. -/
def Emulates (config : EmulatorConfig) (regs : Registers) (memory : σ) (trap : Nat) : Prop :=
  regs.cs.toNat % 4 = 3 ∧ trap = 6 ∧ ∃ e, (emulate config regs memory).1 = .ok e

theorem emulates_iff (config : EmulatorConfig) (regs : Registers) (memory : σ) (trap : Nat) :
    Emulates config regs memory trap ↔
      regs.cs.toNat % 4 = 3 ∧ trap = 6 ∧ ∃ e after, emulate config regs memory = (.ok e, after) := by
  unfold Emulates
  refine and_congr_right fun _ ↦ and_congr_right fun _ ↦ ⟨?_, ?_⟩
  · rintro ⟨e, he⟩
    exact ⟨e, (emulate config regs memory).2, Prod.ext he rfl⟩
  · rintro ⟨e, after, he⟩
    exact ⟨e, by rw [he]⟩

/-- Whichever stage fails, a trap that is not emulated leaves the registers as they were. -/
theorem handleTrap_of_not_emulates {config : EmulatorConfig} {regs : Registers} {memory : σ}
    {vector : Byte} (h : ¬ Emulates config regs memory vector.toNat) :
    ∃ reason after log, handleTrap config regs memory vector = ⟨.forward reason, regs, after, log⟩ := by
  unfold handleTrap
  by_cases hvector : vector = 6
  · have hopcode : Exception.ofVector? vector = some .invalidOpcode :=
      (Exception.ofVector?_eq_invalidOpcode vector).mpr hvector
    rw [if_neg (not_not_intro hopcode)]
    cases huser : regs.isUser with
    | false => exact ⟨.kernelOrigin, memory, _, rfl⟩
    | true =>
      cases hemulate : emulate config regs memory with
      | mk answer after =>
        cases answer with
        | error error => exact ⟨.emulation error, after, _, rfl⟩
        | ok e =>
          refine absurd ?_ h
          rw [emulates_iff, hvector]
          exact ⟨(isUser_iff regs).mp huser, rfl, e, after, hemulate⟩
  · have hother : Exception.ofVector? vector ≠ some .invalidOpcode := by
      rwa [ne_eq, Exception.ofVector?_eq_invalidOpcode]
    rw [if_pos hother]
    exact ⟨.otherTrap vector, memory, _, rfl⟩

/-- A trap is handled exactly if it is emulated. -/
theorem handled_iff_emulates {config : EmulatorConfig} {regs : Registers} {memory : σ}
    {vector : Byte} :
    (handleTrap config regs memory vector).outcome = .handled ↔
      Emulates config regs memory vector.toNat := by
  constructor
  · intro hhandled
    by_cases hemulates : Emulates config regs memory vector.toNat
    · exact hemulates
    · obtain ⟨reason, after, log, hforward⟩ := handleTrap_of_not_emulates hemulates
      rw [hforward] at hhandled
      cases hhandled
  · intro hemulates
    obtain ⟨huser, hvector, e, after, hemulate⟩ := (emulates_iff _ _ _ _).mp hemulates
    obtain rfl : vector = 6 := BitVec.eq_of_toNat_eq hvector
    rw [handleTrap_of_emulate huser hemulate]

/-- A trap that is forwarded leaves the registers as they were. -/
theorem registers_of_forward {config : EmulatorConfig} {regs : Registers} {memory : σ} {vector : Byte}
    {reason : ForwardReason} (h : (handleTrap config regs memory vector).outcome = .forward reason) :
    (handleTrap config regs memory vector).registers = regs := by
  have hnot : ¬ Emulates config regs memory vector.toNat := by
    rw [← handled_iff_emulates, h]
    rintro ⟨⟩
  obtain ⟨reason', after, log, htrap⟩ := handleTrap_of_not_emulates hnot
  rw [htrap]

/-! ## The routine -/

/-- A fault that can be emulated never reaches the host. -/
theorem errorTrap_of_emulate {config : EmulatorConfig} {regs : Registers} {memory after : σ}
    {e : Emulated} {frame : TrapFrame} (routine : HostRoutine ω) (host : ω)
    (huser : regs.cs.toNat % 4 = 3) (htrap : frame.trap.toNat = 6)
    (hemulate : emulate config regs memory = (.ok e, after)) :
    errorTrap config routine host regs memory frame =
      ⟨true, e.effect.commit regs, after, host,
        [.emulated regs.ip e.operation e.effect.length]⟩ := by
  have hvector : frame.trap.setWidth 8 = 6 := by
    apply BitVec.eq_of_toNat_eq
    rw [BitVec.toNat_setWidth, htrap]
    rfl
  have hoffered : regs.isUser ∧ frame.trap.toNat < 256 := by
    rw [isUser_iff, htrap]
    exact ⟨huser, by decide⟩
  unfold errorTrap
  rw [if_pos hoffered, hvector, handleTrap_of_emulate huser hemulate]

/-- Any other fault is forwarded with the registers as they arrived. -/
theorem errorTrap_of_not_emulates {config : EmulatorConfig} {regs : Registers} {memory : σ}
    {frame : TrapFrame} (h : ¬ Emulates config regs memory frame.trap.toNat) :
    ∃ after log, ∀ {ω : Type} (routine : HostRoutine ω) (host : ω),
      errorTrap config routine host regs memory frame =
        routine.forward host regs after frame log := by
  unfold errorTrap
  by_cases hoffered : regs.isUser ∧ frame.trap.toNat < 256
  · -- Narrowing the number loses nothing, so no other trap is taken for an invalid opcode.
    have hvector : (frame.trap.setWidth 8).toNat = frame.trap.toNat := by
      rw [BitVec.toNat_setWidth, Nat.mod_eq_of_lt hoffered.2]
    rw [← hvector] at h
    obtain ⟨reason, after, log, htrap⟩ := handleTrap_of_not_emulates h
    refine ⟨after, log, fun routine host ↦ ?_⟩
    rw [if_pos hoffered, htrap]
  · refine ⟨memory, [], fun routine host ↦ ?_⟩
    rw [if_neg hoffered]

namespace HostRoutine

/-- The routine with a record of its calls, the latest at the end. -/
def recorded (routine : HostRoutine ω) : HostRoutine (ω × List (Registers × TrapFrame)) where
  call state regs frame :=
    let (registers, host) := routine.call state.1 regs frame
    (registers, host, state.2 ++ [(regs, frame)])

end HostRoutine

/-- What the host's own routine is called with during a fault, in order. -/
def hostCalls (config : EmulatorConfig) (routine : HostRoutine ω) (host : ω) (regs : Registers)
    (memory : σ) (frame : TrapFrame) : List (Registers × TrapFrame) :=
  (errorTrap config routine.recorded (host, []) regs memory frame).host.2

theorem hostCalls_of_emulate {config : EmulatorConfig} {regs : Registers} {memory after : σ}
    {e : Emulated} {frame : TrapFrame} (routine : HostRoutine ω) (host : ω)
    (huser : regs.cs.toNat % 4 = 3) (htrap : frame.trap.toNat = 6)
    (hemulate : emulate config regs memory = (.ok e, after)) :
    hostCalls config routine host regs memory frame = [] := by
  rw [hostCalls, errorTrap_of_emulate routine.recorded (host, []) huser htrap hemulate]

theorem hostCalls_of_not_emulates {config : EmulatorConfig} {regs : Registers} {memory : σ}
    {frame : TrapFrame} (routine : HostRoutine ω) (host : ω)
    (h : ¬ Emulates config regs memory frame.trap.toNat) :
    hostCalls config routine host regs memory frame = [(regs, frame)] := by
  obtain ⟨after, log, hforward⟩ := errorTrap_of_not_emulates h
  rw [hostCalls, hforward routine.recorded (host, [])]
  rfl

/-- Keeping a record changes nothing else. -/
theorem errorTrap_recorded (config : EmulatorConfig) (routine : HostRoutine ω) (host : ω)
    (regs : Registers) (memory : σ) (frame : TrapFrame) :
    let result := errorTrap config routine.recorded (host, []) regs memory frame
    errorTrap config routine host regs memory frame =
      ⟨result.handled, result.registers, result.memory, result.host.1, result.log⟩ := by
  by_cases h : Emulates config regs memory frame.trap.toNat
  · obtain ⟨huser, htrap, e, after, hemulate⟩ := (emulates_iff _ _ _ _).mp h
    rw [errorTrap_of_emulate routine host huser htrap hemulate,
      errorTrap_of_emulate routine.recorded (host, []) huser htrap hemulate]
  · obtain ⟨after, log, hforward⟩ := errorTrap_of_not_emulates h
    rw [hforward routine host, hforward routine.recorded (host, [])]
    rfl

/-- A fault is emulated if it is an invalid opcode of a user thread whose instruction can be emulated as
the registers arrived: then its effect is committed and the host's routine is not called.  Otherwise that
routine is called once, with the registers and the frame as they arrived, and what it leaves is what is
left. -/
theorem errorTrap_emulates_or_forwards (config : EmulatorConfig) (routine : HostRoutine ω) (host : ω)
    (regs : Registers) (memory : σ) (frame : TrapFrame) :
    let attempt := (emulate config regs memory).1
    let result := errorTrap config routine host regs memory frame
    let calls := hostCalls config routine host regs memory frame
    (result.handled = true ↔
      regs.cs.toNat % 4 = 3 ∧ frame.trap.toNat = 6 ∧ ∃ e, attempt = .ok e) ∧
    (result.handled = true →
      ∃ e, attempt = .ok e ∧ result.registers = e.effect.commit regs ∧ result.host = host ∧
        calls = []) ∧
    (result.handled = false →
      (result.registers, result.host) = routine.call host regs frame ∧ calls = [(regs, frame)]) := by
  intro attempt result calls
  by_cases h : Emulates config regs memory frame.trap.toNat
  · obtain ⟨huser, htrap, e, after, hemulate⟩ := (emulates_iff _ _ _ _).mp h
    have hattempt : attempt = .ok e := congrArg Prod.fst hemulate
    have hresult := errorTrap_of_emulate routine host huser htrap hemulate
    have hcalls : calls = [] := hostCalls_of_emulate routine host huser htrap hemulate
    have hhandled : result.handled = true := congrArg ErrorTrapResult.handled hresult
    refine ⟨iff_of_true hhandled h, fun _ ↦ ⟨e, hattempt, ?_, ?_, hcalls⟩, ?_⟩
    · exact congrArg ErrorTrapResult.registers hresult
    · exact congrArg ErrorTrapResult.host hresult
    · rw [hhandled]
      rintro ⟨⟩
  · obtain ⟨after, log, hforward⟩ := errorTrap_of_not_emulates h
    have hresult : result = routine.forward host regs after frame log := hforward routine host
    have hcalls : calls = [(regs, frame)] := hostCalls_of_not_emulates routine host h
    have hhandled : result.handled = false := congrArg ErrorTrapResult.handled hresult
    refine ⟨iff_of_false (Bool.eq_false_iff.mp hhandled) h, ?_, fun _ ↦ ⟨?_, hcalls⟩⟩
    · rw [hhandled]
      rintro ⟨⟩
    · rw [hresult]
      rfl

end TrapEmulation
