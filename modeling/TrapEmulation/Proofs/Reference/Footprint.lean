import TrapEmulation.Operation
import TrapEmulation.Proofs.Reference.Changes

/-!
# Footprints

The footprint of an instruction lists the registers and the flags that it writes.  Changes that keep to a
footprint leave every other register and flag as it was, and what they write is no wider than they say.
-/

namespace TrapEmulation

/-- The registers, by number, and the flags that an instruction writes. -/
structure Footprint where
  gprs : List Nat := []
  xmms : List Nat := []
  flags : List Flag := []
  deriving DecidableEq, Repr

namespace Reference

/-- The registers that a bit-manipulation instruction writes. -/
def destinations (op : BitOp) (i : Instruction) : List Nat :=
  match op with
  | .blsr | .blsmsk | .blsi => [i.vvvv.toNat]
  | .mulx => [i.regIndex, i.vvvv.toNat]
  | .rorx | .andn | .bzhi | .pext | .pdep | .bextr | .shlx | .sarx | .shrx => [i.regIndex]

/-- The flags with which a bit-manipulation operation reports on its result. -/
def reportedFlags : BitOp → List Flag
  | .andn | .blsr | .blsmsk | .blsi | .bzhi => [.zero, .sign, .carry, .overflow]
  | .bextr => [.zero, .carry, .overflow]
  | .rorx | .pext | .pdep | .mulx | .shlx | .sarx | .shrx => []

/-- What a string comparison writes: the count register or the first vector register, and six flags. -/
def compareFootprint (op : CompareOp) : Footprint :=
  let flags : List Flag := [.carry, .zero, .sign, .overflow, .adjust, .parity]
  match op with
  | .pcmpestri | .pcmpistri => { gprs := [1], flags := flags }
  | .pcmpestrm | .pcmpistrm => { xmms := [0], flags := flags }

def footprint (operation : Operation) (i : Instruction) : Footprint :=
  match operation with
  | .bit op => { gprs := destinations op i, flags := reportedFlags op }
  | .compare op => compareFootprint op

variable {operation : Operation} {i : Instruction}

/-- One general register is written at most, or two by `mulx`. -/
theorem length_gprs_footprint_le (operation : Operation) (i : Instruction) :
    (footprint operation i).gprs.length ≤ if operation = .bit .mulx then 2 else 1 := by
  cases operation with
  | bit op =>
    change (destinations op i).length ≤ _
    cases op with
    | mulx => exact Nat.le_refl 2
    | _ => exact Nat.le_refl 1
  | compare op =>
    change (compareFootprint op).gprs.length ≤ _
    cases op <;> decide

/-- The only vector register that is written is the first, by the operations that produce a mask. -/
theorem eq_zero_of_mem_xmms {index : Nat} (h : index ∈ (footprint operation i).xmms) :
    index = 0 ∧ (operation = .compare .pcmpestrm ∨ operation = .compare .pcmpistrm) := by
  cases operation with
  | bit op => cases h
  | compare op =>
    cases op with
    | pcmpestrm => exact ⟨List.mem_singleton.mp h, .inl rfl⟩
    | pcmpestri => cases h
    | pcmpistrm => exact ⟨List.mem_singleton.mp h, .inr rfl⟩
    | pcmpistri => cases h

/-- A general register that is written is the count register or one that the instruction names. -/
theorem lt_of_mem_gprs {index count : Nat} (hcount : 1 < count) (hreg : i.regIndex < count)
    (hvvvv : i.vvvv.toNat < count) (h : index ∈ (footprint operation i).gprs) : index < count := by
  cases operation with
  | bit op =>
    have hnamed : index = i.regIndex ∨ index = i.vvvv.toNat := by
      change index ∈ destinations op i at h
      cases op with
      | mulx => simpa [destinations] using h
      | blsr => exact .inr (List.mem_singleton.mp h)
      | blsmsk => exact .inr (List.mem_singleton.mp h)
      | blsi => exact .inr (List.mem_singleton.mp h)
      | _ => exact .inl (List.mem_singleton.mp h)
    rcases hnamed with rfl | rfl
    · exact hreg
    · exact hvvvv
  | compare op =>
    have hone : index = 1 := by
      cases op with
      | pcmpestrm => cases h
      | pcmpestri => exact List.mem_singleton.mp h
      | pcmpistrm => cases h
      | pcmpistri => exact List.mem_singleton.mp h
    rw [hone]
    exact hcount

/-- The flags that are written are arithmetic ones. -/
theorem position_mem_of_mem_flags {flag : Flag} (h : flag ∈ (footprint operation i).flags) :
    flag.position ∈ [0, 2, 4, 6, 7, 11] := by
  have harithmetic : flag ≠ .direction → flag.position ∈ [0, 2, 4, 6, 7, 11] := by
    cases flag <;> decide
  apply harithmetic
  rintro rfl
  cases operation with
  | bit op =>
    have hnot : Flag.direction ∉ reportedFlags op := by
      cases op <;> decide
    exact hnot h
  | compare op =>
    have hnot : Flag.direction ∉ (compareFootprint op).flags := by
      cases op <;> decide
    exact hnot h

/-- The operations that only move bits or multiply report nothing. -/
theorem flags_eq_nil_of_quiet (h : operation ∈ [.bit .rorx, .bit .pext, .bit .pdep, .bit .mulx,
    .bit .shlx, .bit .sarx, .bit .shrx]) : (footprint operation i).flags = [] := by
  have hall : ∀ quiet ∈ [Operation.bit .rorx, .bit .pext, .bit .pdep, .bit .mulx, .bit .shlx,
      .bit .sarx, .bit .shrx], (footprint quiet i).flags = [] := by
    simp [footprint, reportedFlags]
  exact hall operation h

/-- Bit-manipulation operations do not report with every flag. -/
theorem notMem_reportedFlags (op : BitOp) :
    ∀ flag ∈ [Flag.adjust, .parity, .direction], flag ∉ reportedFlags op := by
  cases op <;> decide

end Reference

namespace Changes

/-- The changes write what the footprint lists, with numbers of at most the given width in general
registers. -/
structure KeepsTo (changes : Changes) (f : Footprint) (bits : Nat) : Prop where
  gprs : changes.gprs.map Prod.fst = f.gprs
  xmms : changes.xmms.map Prod.fst = f.xmms
  flags : changes.flags.map Prod.fst = f.flags.map Flag.position
  fits : ∀ entry ∈ changes.gprs, entry.2 < 2 ^ bits

/-! ## Lookups -/

theorem lookup_eq_none {β : Type} {entries : List (Nat × β)} {index : Nat}
    (h : index ∉ entries.map Prod.fst) : entries.lookup index = none := by
  rw [List.lookup_eq_none_iff]
  intro entry hentry
  rw [bne_iff_ne]
  rintro rfl
  exact h (List.mem_map_of_mem hentry)

theorem exists_lookup {β : Type} {entries : List (Nat × β)} {index : Nat}
    (h : index ∈ entries.map Prod.fst) :
    ∃ value, entries.lookup index = some value ∧ (index, value) ∈ entries := by
  cases hlookup : entries.lookup index with
  | none =>
    obtain ⟨entry, hentry, rfl⟩ := List.mem_map.mp h
    have hne := List.lookup_eq_none_iff.mp hlookup entry hentry
    exact absurd rfl (bne_iff_ne.mp hne)
  | some value =>
    obtain ⟨front, back, rfl, -⟩ := List.lookup_eq_some_iff.mp hlookup
    exact ⟨value, rfl, List.mem_append_right _ List.mem_cons_self⟩

/-! ## Registers and flags afterwards -/

namespace KeepsTo

variable {changes : Changes} {f : Footprint} {bits index position : Nat}

/-- A general register outside the footprint stays as it was. -/
theorem gpr_eq (h : changes.KeepsTo f bits) (hindex : index < 16) (hnotMem : index ∉ f.gprs)
    (length : Nat) (regs : Registers) :
    (changes.apply length regs).gpr index = regs.gpr index := by
  rw [← h.gprs] at hnotMem
  simp only [Registers.gpr, apply, Nat.mod_eq_of_lt hindex]
  rw [getElem_file _ _ _ hindex, lookup_eq_none hnotMem]

/-- A vector register outside the footprint stays as it was. -/
theorem xmm_eq (h : changes.KeepsTo f bits) (hindex : index < 16) (hnotMem : index ∉ f.xmms)
    (length : Nat) (regs : Registers) :
    (changes.apply length regs).xmm index = regs.xmm index := by
  rw [← h.xmms] at hnotMem
  simp only [Registers.xmm, apply, Nat.mod_eq_of_lt hindex]
  rw [getElem_file _ _ _ hindex, lookup_eq_none hnotMem]

/-- A general register of the footprint holds one of the numbers that are written. -/
theorem toNat_gpr_lt (h : changes.KeepsTo f bits) (hindex : index < 16) (hmem : index ∈ f.gprs)
    (length : Nat) (regs : Registers) :
    ((changes.apply length regs).gpr index).toNat < 2 ^ bits := by
  rw [← h.gprs] at hmem
  obtain ⟨value, hlookup, hwritten⟩ := exists_lookup hmem
  simp only [Registers.gpr, apply, Nat.mod_eq_of_lt hindex]
  rw [getElem_file _ _ _ hindex, hlookup, BitVec.toNat_ofNat]
  exact Nat.lt_of_le_of_lt (Nat.mod_le _ _) (h.fits _ hwritten)

theorem lookup_flags_eq_none (h : changes.KeepsTo f bits)
    (hother : ∀ flag ∈ f.flags, flag.position ≠ position) : changes.flags.lookup position = none := by
  apply lookup_eq_none
  rw [h.flags, List.mem_map]
  rintro ⟨flag, hflag, hposition⟩
  exact hother flag hflag hposition

/-- A bit of the flags register outside the footprint stays as it was. -/
theorem getLsbD_rflags_eq (h : changes.KeepsTo f bits)
    (hother : ∀ flag ∈ f.flags, flag.position ≠ position) (hreserved : position ≠ 1) (length : Nat)
    (regs : Registers) :
    (changes.apply length regs).rflags.getLsbD position = regs.rflags.getLsbD position := by
  change (flagsWord regs.rflags changes.flags).getLsbD position = _
  by_cases hposition : position < 64
  · rw [getLsbD_flagsWord _ _ hposition, h.lookup_flags_eq_none hother, Option.getD_none,
      beq_eq_false_iff_ne.mpr hreserved, Bool.false_and, Bool.or_false]
  · rw [BitVec.getLsbD_of_ge _ _ (Nat.le_of_not_lt hposition),
      BitVec.getLsbD_of_ge _ _ (Nat.le_of_not_lt hposition)]

/-- Reserved bit 1 may come to be set, and nothing else happens to it. -/
theorem getLsbD_rflags_one (h : changes.KeepsTo f bits) (length : Nat) (regs : Registers) :
    (changes.apply length regs).rflags.getLsbD 1 = regs.rflags.getLsbD 1 ∨
      (changes.apply length regs).rflags.getLsbD 1 = true := by
  have hother : ∀ flag ∈ f.flags, flag.position ≠ 1 := by
    intro flag _
    cases flag <;> decide
  change (flagsWord regs.rflags changes.flags).getLsbD 1 = _ ∨
    (flagsWord regs.rflags changes.flags).getLsbD 1 = _
  rw [getLsbD_flagsWord _ _ (by decide), h.lookup_flags_eq_none hother, Option.getD_none]
  cases changes.flags.isEmpty <;> simp

/-- Without flags in the footprint the flags register stays as it was. -/
theorem rflags_eq (h : changes.KeepsTo f bits) (hnone : f.flags = []) (length : Nat)
    (regs : Registers) : (changes.apply length regs).rflags = regs.rflags := by
  have hflags : changes.flags = [] := by
    have hpositions := h.flags
    rw [hnone, List.map_nil] at hpositions
    exact List.map_eq_nil_iff.mp hpositions
  change flagsWord regs.rflags changes.flags = regs.rflags
  rw [hflags, flagsWord_nil]

end KeepsTo

end Changes

end TrapEmulation
