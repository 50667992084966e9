import Mathlib.Data.List.Induction
import Mathlib.Data.Nat.Bitwise
import TrapEmulation.Effect
import TrapEmulation.Proofs.Words

/-!
# Changes of the registers

`Changes` lists what an instruction writes as plain numbers: registers by number, flags by their
place in the flags register.  `Changes.apply` gives the registers afterwards, one by one.  The
effects of the engines are compared with it here.
-/

namespace TrapEmulation

/-- What an instruction writes.  Where a register or a flag is listed twice, the first entry counts. -/
structure Changes where
  gprs : List (Nat × Nat) := []
  xmms : List (Nat × Nat) := []
  flags : List (Nat × Bool) := []
  deriving DecidableEq, Repr

namespace Changes

/-- A register file after the listed writes. -/
def file {w : Nat} (old : Vector (BitVec w) 16) (writes : List (Nat × Nat)) :
    Vector (BitVec w) 16 :=
  Vector.ofFn fun index ↦
    match writes.lookup index.val with
    | some value => BitVec.ofNat w value
    | none => old[index.val]

/-- The flags register after the listed flags have been written.  Reserved bit 1 is set whenever any
flag is. -/
def flagsWord (old : BitVec 64) (flags : List (Nat × Bool)) : BitVec 64 :=
  BitVec.ofNat 64 <| Nat.ofBits fun position : Fin 64 ↦
    (flags.lookup position.val).getD (old.getLsbD position.val) ||
      (position.val == 1 && !flags.isEmpty)

/-- The registers after an instruction of the given length.  The instruction pointer moves past it
and wraps at the width of the mode. -/
def apply (changes : Changes) (length : Nat) (regs : Registers) : Registers :=
  { regs with
    gprs := file regs.gprs changes.gprs
    xmms := file regs.xmms changes.xmms
    rflags := flagsWord regs.rflags changes.flags
    rip := BitVec.ofNat 64 ((regs.rip.toNat + length) % 2 ^ regs.mode.width) }

/-! ## Register files -/

theorem getElem_file {w : Nat} (old : Vector (BitVec w) 16) (writes : List (Nat × Nat)) (index : Nat)
    (hindex : index < 16) :
    (file old writes)[index] =
      match writes.lookup index with
      | some value => BitVec.ofNat w value
      | none => old[index] := by
  rw [file, Vector.getElem_ofFn]

theorem file_nil {w : Nat} (old : Vector (BitVec w) 16) : file old [] = old := by
  apply Vector.ext
  intro index hindex
  rw [getElem_file]
  rfl

/-- A later write stands in front of the earlier ones. -/
theorem set_file {w : Nat} (old : Vector (BitVec w) 16) (writes : List (Nat × Nat)) {target : Nat}
    (htarget : target < 16) (value : BitVec w) :
    (file old writes).set target value = file old ((target, value.toNat) :: writes) := by
  apply Vector.ext
  intro index hindex
  rw [Vector.getElem_set, getElem_file old ((target, value.toNat) :: writes), List.lookup_cons]
  by_cases heq : target = index
  · have hbeq : (index == target) = true := by rw [heq, beq_self_eq_true]
    rw [if_pos heq, hbeq]
    change value = BitVec.ofNat w value.toNat
    rw [BitVec.ofNat_toNat, BitVec.setWidth_eq]
  · have hbeq : (index == target) = false := by
      rw [beq_eq_false_iff_ne]
      exact fun h ↦ heq h.symm
    rw [if_neg heq, hbeq, getElem_file]

/-! ## Effects -/

/-- The register number and value of a write to a general register. -/
def gprWrite? : RegWrite → Option (Nat × Nat)
  | .gpr index value => some (index, value.toNat)
  | .xmm _ _ => none

/-- The register number and value of a write to a vector register. -/
def xmmWrite? : RegWrite → Option (Nat × Nat)
  | .gpr _ _ => none
  | .xmm index value => some (index, value.toNat)

/-- A write whose register number is one of the sixteen. -/
def InRange : RegWrite → Prop
  | .gpr index _ => index < 16
  | .xmm index _ => index < 16

/-- The changes that an engine's writes and flags amount to.  The last write is listed first. -/
def ofWrites (writes : List RegWrite) (flags : List (Flag × Bool)) : Changes where
  gprs := writes.reverse.filterMap gprWrite?
  xmms := writes.reverse.filterMap xmmWrite?
  flags := flags.map fun entry ↦ (entry.1.position, entry.2)

/-- Applying writes in order changes the two register files and nothing else. -/
theorem foldl_apply (writes : List RegWrite) (regs : Registers)
    (hrange : ∀ write ∈ writes, InRange write) :
    writes.foldl RegWrite.apply regs =
      { regs with
        gprs := file regs.gprs (writes.reverse.filterMap gprWrite?)
        xmms := file regs.xmms (writes.reverse.filterMap xmmWrite?) } := by
  induction writes using List.reverseRecOn with
  | nil =>
    change regs = { regs with gprs := file regs.gprs [], xmms := file regs.xmms [] }
    rw [file_nil, file_nil]
  | append_singleton writes write ih =>
    have hwrites : ∀ earlier ∈ writes, InRange earlier := by
      intro earlier hearlier
      exact hrange earlier (List.mem_append_left _ hearlier)
    have hwrite : InRange write := hrange write (List.mem_append_right _ (List.mem_singleton_self _))
    rw [List.foldl_append, ih hwrites, List.reverse_append, List.reverse_singleton,
      List.singleton_append]
    cases write with
    | gpr index value =>
      have hindex : index % 16 = index := Nat.mod_eq_of_lt hwrite
      change Registers.setGpr _ index value = _
      simp only [Registers.setGpr, List.filterMap_cons, gprWrite?, xmmWrite?, hindex]
      rw [set_file regs.gprs _ hwrite]
    | xmm index value =>
      have hindex : index % 16 = index := Nat.mod_eq_of_lt hwrite
      change Registers.setXmm _ index value = _
      simp only [Registers.setXmm, List.filterMap_cons, gprWrite?, xmmWrite?, hindex]
      rw [set_file regs.xmms _ hwrite]

/-! ## Flags -/

theorem getLsbD_flagsWord (old : BitVec 64) (flags : List (Nat × Bool)) {position : Nat}
    (hposition : position < 64) :
    (flagsWord old flags).getLsbD position =
      ((flags.lookup position).getD (old.getLsbD position) ||
        (position == 1 && !flags.isEmpty)) := by
  rw [flagsWord, BitVec.getLsbD_ofNat, Nat.testBit_ofBits_lt _ _ hposition,
    decide_eq_true hposition, Bool.true_and]

theorem position_injective {flag other : Flag} (h : flag.position = other.position) :
    flag = other := by
  revert h
  cases flag <;> cases other <;> decide

/-- The entries of a flag list with the flags named by their places. -/
def positions (flags : List (Flag × Bool)) : List (Nat × Bool) :=
  flags.map fun entry ↦ (entry.1.position, entry.2)

theorem lookup_positions_of_notMem {flags : List (Flag × Bool)} {flag : Flag}
    (h : flag ∉ flags.map Prod.fst) : (positions flags).lookup flag.position = none := by
  rw [List.lookup_eq_none_iff]
  intro entry hentry
  obtain ⟨source, hsource, rfl⟩ := List.mem_map.mp hentry
  rw [bne_iff_ne]
  intro heq
  apply h
  rw [position_injective heq]
  exact List.mem_map_of_mem hsource

theorem getLsbD_twoPow_of_lt {place : Nat} (hplace : place < 64) (position : Nat) :
    (BitVec.twoPow 64 place).getLsbD position = (position == place) := by
  rw [BitVec.getLsbD_twoPow, decide_eq_true hplace, Bool.true_and, Bool.eq_iff_iff,
    decide_eq_true_iff, beq_iff_eq]
  exact eq_comm

theorem getLsbD_mask (flag : Flag) (position : Nat) :
    flag.mask.getLsbD position = (position == flag.position) := by
  apply getLsbD_twoPow_of_lt
  cases flag <;> decide

/-- The update of a list affects the listed flags, each with its listed value. -/
theorem getLsbD_ofList {flags : List (Flag × Bool)} (hnodup : (flags.map Prod.fst).Nodup)
    (position : Nat) :
    (FlagUpdate.ofList flags).affected.getLsbD position =
        ((positions flags).lookup position).isSome ∧
      (FlagUpdate.ofList flags).values.getLsbD position =
        ((positions flags).lookup position).getD false := by
  induction flags with
  | nil => exact ⟨BitVec.getLsbD_zero, BitVec.getLsbD_zero⟩
  | cons entry flags ih =>
    obtain ⟨flag, on⟩ := entry
    obtain ⟨hnotMem, hrest⟩ := List.nodup_cons.mp hnodup
    obtain ⟨haffected, hvalues⟩ := ih hrest
    have hvalue : (if on then flag.mask else 0).getLsbD position =
        (on && position == flag.position) := by
      cases on
      · exact BitVec.getLsbD_zero
      · exact getLsbD_mask flag position
    change (flag.mask ||| _).getLsbD position = _ ∧
      ((if on then flag.mask else 0) ||| _).getLsbD position = _
    rw [BitVec.getLsbD_or, BitVec.getLsbD_or, getLsbD_mask, hvalue, haffected, hvalues]
    change _ = (((flag.position, on) :: positions flags).lookup position).isSome ∧
      _ = (((flag.position, on) :: positions flags).lookup position).getD false
    rw [List.lookup_cons]
    by_cases heq : position = flag.position
    · rw [heq, beq_self_eq_true, lookup_positions_of_notMem hnotMem]
      exact ⟨rfl, by simp⟩
    · rw [beq_eq_false_iff_ne.mpr heq]
      simp

/-- Writing a list of different flags gives the flags register that the list describes. -/
theorem apply_ofList {flags : List (Flag × Bool)} (hne : flags ≠ [])
    (hnodup : (flags.map Prod.fst).Nodup) (rflags : BitVec 64) :
    (FlagUpdate.ofList flags).apply rflags = flagsWord rflags (positions flags) := by
  apply BitVec.eq_of_getLsbD_eq
  intro position hposition
  obtain ⟨haffected, hvalues⟩ := getLsbD_ofList hnodup position
  have hreserved : Flag.reservedMask.getLsbD position =
      (position == 1 && !(positions flags).isEmpty) := by
    have hempty : (positions flags).isEmpty = false := by
      rw [positions, List.isEmpty_map]
      exact List.isEmpty_eq_false_iff.mpr hne
    rw [hempty, Bool.not_false, Bool.and_true]
    have hplace : 1 < 64 := by decide
    exact getLsbD_twoPow_of_lt hplace position
  rw [FlagUpdate.getLsbD_apply, haffected, hvalues, hreserved, getLsbD_flagsWord _ _ hposition]
  cases (positions flags).lookup position <;> rfl

/-- The update that an engine reports for a list of flags. -/
def flagUpdate? (flags : List (Flag × Bool)) : Option FlagUpdate :=
  if flags = [] then none else some (.ofList flags)

theorem flagsWord_nil (rflags : BitVec 64) : flagsWord rflags [] = rflags := by
  apply BitVec.eq_of_getLsbD_eq
  intro position hposition
  rw [getLsbD_flagsWord _ _ hposition]
  simp

/-! ## The whole effect -/

theorem advance_eq (regs : Registers) (length : Nat) :
    regs.advance (BitVec.ofNat 64 length) =
      { regs with
        rip := BitVec.ofNat 64 ((regs.rip.toNat + length) % 2 ^ regs.mode.width) } := by
  have hdvd : 2 ^ regs.mode.width ∣ 2 ^ 64 := regs.mode.two_pow_width_dvd
  have hrip : regs.mode.clip (regs.ip + BitVec.ofNat 64 length) =
      BitVec.ofNat 64 ((regs.rip.toNat + length) % 2 ^ regs.mode.width) := by
    apply BitVec.eq_of_toNat_eq
    rw [Mode.toNat_clip, BitVec.toNat_add, BitVec.toNat_ofNat, Mode.toNat_ofNat_mod, Registers.ip,
      Mode.toNat_clip]
    calc
      (regs.rip.toNat % 2 ^ regs.mode.width + length % 2 ^ 64) % 2 ^ 64 % 2 ^ regs.mode.width =
          (regs.rip.toNat % 2 ^ regs.mode.width + length % 2 ^ 64) % 2 ^ regs.mode.width :=
        Nat.mod_mod_of_dvd _ hdvd
      _ = (regs.rip.toNat + length) % 2 ^ regs.mode.width := by
        rw [Nat.add_mod, Nat.mod_mod, Nat.mod_mod_of_dvd _ hdvd, ← Nat.add_mod]
  rw [Registers.advance, Registers.setIp, hrip]

theorem mode_apply (changes : Changes) (length : Nat) (regs : Registers) :
    (changes.apply length regs).mode = regs.mode := by
  rw [apply]

theorem cs_apply (changes : Changes) (length : Nat) (regs : Registers) :
    (changes.apply length regs).cs = regs.cs := by
  rw [apply]

theorem fsBase_apply (changes : Changes) (length : Nat) (regs : Registers) :
    (changes.apply length regs).fsBase = regs.fsBase := by
  rw [apply]

theorem gsBase_apply (changes : Changes) (length : Nat) (regs : Registers) :
    (changes.apply length regs).gsBase = regs.gsBase := by
  rw [apply]

theorem toNat_rip_apply (changes : Changes) (length : Nat) (regs : Registers) :
    (changes.apply length regs).rip.toNat = (regs.rip.toNat + length) % 2 ^ regs.mode.width := by
  rw [apply, Mode.toNat_ofNat_mod]

theorem toNat_ip_apply (changes : Changes) (length : Nat) (regs : Registers) :
    (changes.apply length regs).ip.toNat = (regs.ip.toNat + length) % 2 ^ regs.mode.width := by
  rw [Registers.ip, Registers.ip, Mode.toNat_clip, Mode.toNat_clip, toNat_rip_apply, mode_apply,
    Nat.mod_mod, Nat.mod_add_mod]

/-- Committing an effect makes exactly the changes that its writes and flags amount to. -/
theorem commit_eq_apply {writes : List RegWrite} {flags : List (Flag × Bool)}
    (hrange : ∀ write ∈ writes, InRange write) (hnodup : (flags.map Prod.fst).Nodup)
    (length : Nat) (regs : Registers) :
    (Effect.mk writes (flagUpdate? flags) length).commit regs =
      (ofWrites writes flags).apply length regs := by
  have hflags (written : Registers) : Effect.applyFlags written (flagUpdate? flags) =
      { written with rflags := flagsWord written.rflags (positions flags) } := by
    by_cases hempty : flags = []
    · rw [flagUpdate?, if_pos hempty, hempty]
      change written = { written with rflags := flagsWord written.rflags [] }
      rw [flagsWord_nil]
    · rw [flagUpdate?, if_neg hempty]
      change written.applyFlags _ = _
      rw [Registers.applyFlags, apply_ofList hempty hnodup]
  change (Effect.applyFlags (writes.foldl RegWrite.apply regs) (flagUpdate? flags)).advance _ = _
  rw [foldl_apply writes regs hrange, hflags, advance_eq]
  rfl

end Changes

/-! ## Single places of the flags register -/

namespace FlagUpdate

/-- What an update writes to a place of the flags register, if it writes there at all. -/
def written? (update : FlagUpdate) (place : Nat) : Option Bool :=
  if update.affected.getLsbD place then some (update.values.getLsbD place) else none

/-- A place that is not written keeps its bit, except for the reserved one. -/
theorem getLsbD_apply_eq_written? (update : FlagUpdate) (rflags : BitVec 64) (place : Nat) :
    (update.apply rflags).getLsbD place =
      ((update.written? place).getD (rflags.getLsbD place) || Flag.reservedMask.getLsbD place) := by
  rw [getLsbD_apply, written?]
  cases update.affected.getLsbD place <;> rfl

/-- The update of a list writes the listed flags and no other place. -/
theorem written?_ofList {flags : List (Flag × Bool)} (hnodup : (flags.map Prod.fst).Nodup)
    (place : Nat) : (ofList flags).written? place = (Changes.positions flags).lookup place := by
  obtain ⟨haffected, hvalues⟩ := Changes.getLsbD_ofList hnodup place
  rw [written?, haffected, hvalues]
  cases (Changes.positions flags).lookup place <;> rfl

end FlagUpdate

end TrapEmulation
