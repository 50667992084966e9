import TrapEmulation.Decode.Operands
import TrapEmulation.Encoding.Instruction
import TrapEmulation.Proofs.Encoding.Reading
import TrapEmulation.Proofs.Reference.Numbers

/-!
# Operand bytes as they are written

Each part of the operand bytes is written back here, and reading accepts exactly what writing
produces: the byte that names the operands, the scaled index if the fields call for one, and a
displacement of the size that the fields call for.
-/

namespace TrapEmulation

/-! ## Packed fields -/

/-- Fields that fit their places are found again in the packed byte. -/
theorem packFields_unpack {high middle low : Byte} (hhigh : high.toNat < 4)
    (hmiddle : middle.toNat < 8) (hlow : low.toNat < 8) :
    packFields high middle low >>> 6 = high ∧ (packFields high middle low >>> 3) &&& 7 = middle ∧
      packFields high middle low &&& 7 = low := by
  have hall : ∀ (high : Fin 4) (middle low : Fin 8),
      let packed := packFields (BitVec.ofNat 8 high) (BitVec.ofNat 8 middle) (BitVec.ofNat 8 low)
      packed >>> 6 = BitVec.ofNat 8 high ∧ (packed >>> 3) &&& 7 = BitVec.ofNat 8 middle ∧
        packed &&& 7 = BitVec.ofNat 8 low := by
    decide
  have hfields := hall ⟨high.toNat, hhigh⟩ ⟨middle.toNat, hmiddle⟩ ⟨low.toNat, hlow⟩
  simpa only [BitVec.ofNat_toNat, BitVec.setWidth_eq] using hfields

/-- The fields of a `ModRm` fit their places. -/
structure ModRm.Fits (m : ModRm) : Prop where
  md_lt : m.md.toNat < 4
  reg_lt : m.reg.toNat < 8
  rm_lt : m.rm.toNat < 8

theorem ModRm.fits_ofByte (byte : Byte) : (ofByte byte).Fits :=
  ⟨ofByte_md_lt byte, ofByte_reg_lt byte, ofByte_rm_lt byte⟩

theorem ModRm.md_cases : ∀ md : Byte, md.toNat < 4 → md = 0 ∨ md = 1 ∨ md = 2 ∨ md = 3 := by
  decide

theorem ModRm.ofByte_toByte {m : ModRm} (h : m.Fits) : ofByte m.toByte = m := by
  obtain ⟨hmd, hreg, hrm⟩ := packFields_unpack h.md_lt h.reg_lt h.rm_lt
  rw [ofByte, toByte, hmd, hreg, hrm]

/-- The fields of a `Sib` fit their places. -/
structure Sib.Fits (s : Sib) : Prop where
  scale_lt : s.scale.toNat < 4
  index_lt : s.index.toNat < 8
  base_lt : s.base.toNat < 8

theorem Sib.fits_ofByte (byte : Byte) : (ofByte byte).Fits :=
  ⟨ofByte_scale_lt byte, ofByte_index_lt byte, ofByte_base_lt byte⟩

theorem Sib.ofByte_toByte {s : Sib} (h : s.Fits) : ofByte s.toByte = s := by
  obtain ⟨hscale, hindex, hbase⟩ := packFields_unpack h.scale_lt h.index_lt h.base_lt
  rw [ofByte, toByte, hscale, hindex, hbase]

/-- A register field and the bit that extends it name one of sixteen registers. -/
theorem extended_lt_sixteen {field : Byte} (hfield : field.toNat < 8) (extension : Bool) :
    field.toNat + 8 * extension.toNat < 16 := by
  have hextension : extension.toNat ≤ 1 := Bool.toNat_le extension
  omega

theorem regIndex_lt_sixteen {i : Instruction} (hfits : i.modrm.Fits) : i.regIndex < 16 :=
  extended_lt_sixteen hfits.reg_lt i.extension.r

/-- The displacement as it stands in the encoding. -/
def Displacement.bytes : Displacement → List Byte
  | disp8 bits => [bits]
  | disp32 bits => encodeLE 4 bits.toNat

/-- The value of a displacement is what its bytes spell in two's complement. -/
theorem Displacement.value_eq_signed (d : Displacement) :
    d.value = Reference.signed (8 * d.bytes.length) (decodeLE d.bytes) := by
  rw [Reference.value_eq_displacementValue]
  cases d with
  | disp8 bits => rfl
  | disp32 bits =>
    have hlt : bits.toNat < 256 ^ 4 := bits.isLt
    rw [bytes, length_encodeLE, decodeLE_encodeLE, Nat.mod_eq_of_lt hlt]
    rfl

namespace OperandBytes

/-- The operand bytes of an instruction, without the immediate. -/
def bytes (o : OperandBytes) : List Byte :=
  o.modrm.toByte ::
    ((o.sib.map Sib.toByte).toList ++ (o.displacement.map Displacement.bytes).getD [])

/-- The memory operand has no base register: the field in its place holds 5 where the encoding gives
that another meaning. -/
def LacksBase (o : OperandBytes) : Prop :=
  match o.sib with
  | some s => s.base = 5
  | none => o.modrm.rm = 5

/-- Every field fits its place, and exactly the parts that the fields call for are there. -/
structure WellFormed (o : OperandBytes) : Prop where
  modrm_fits : o.modrm.Fits
  sib_isSome : o.sib.isSome ↔ o.modrm.md ≠ 3 ∧ o.modrm.rm = 4
  sib_fits : ∀ s ∈ o.sib, s.Fits
  disp8_iff : (∃ bits, o.displacement = some (.disp8 bits)) ↔ o.modrm.md = 1
  disp32_iff : (∃ bits, o.displacement = some (.disp32 bits)) ↔
    o.modrm.md = 2 ∨ (o.modrm.md = 0 ∧ o.LacksBase)

/-! ## Reading back -/

theorem needsSib_iff (m : ModRm) : needsSib m ↔ m.md ≠ 3 ∧ m.rm = 4 := by
  simp [needsSib, ModRm.isRegister]

theorem readSib_eq_ok_iff (m : ModRm) (sib : Option Sib) (bytes rest : List Byte) :
    readSib m bytes = .ok (sib, rest) ↔
      (sib.isSome ↔ needsSib m) ∧ (∀ s ∈ sib, s.Fits) ∧
        bytes = (sib.map Sib.toByte).toList ++ rest := by
  unfold readSib
  by_cases hneeds : needsSib m
  · rw [if_pos hneeds]
    simp only [Reader.bind_eq_ok_iff, Reader.next_eq_ok_iff, Reader.pure_eq_ok_iff, hneeds, iff_true]
    constructor
    · rintro ⟨byte, middle, rfl, rfl, rfl⟩
      refine ⟨rfl, ?_, ?_⟩
      · rintro s ⟨⟩
        exact Sib.fits_ofByte byte
      · rw [Option.map_some, Sib.toByte_ofByte]
        rfl
    · rintro ⟨hsome, hfits, rfl⟩
      obtain ⟨s, rfl⟩ := Option.isSome_iff_exists.mp hsome
      exact ⟨s.toByte, rest, rfl, by rw [Sib.ofByte_toByte (hfits s rfl)], rfl⟩
  · rw [if_neg hneeds, Reader.pure_eq_ok_iff]
    simp only [hneeds, Bool.false_eq_true, iff_false, Bool.not_eq_true, Option.isSome_eq_false_iff,
      Option.isNone_iff_eq_none]
    apply and_congr_right
    intro hnone
    simp [hnone, eq_comm]

/-- The number of bytes that an optional displacement takes. -/
def sizeOf (displacement : Option Displacement) : Nat :=
  (displacement.map Displacement.size).getD 0

theorem sizeOf_eq_zero_iff (displacement : Option Displacement) :
    sizeOf displacement = 0 ↔ displacement = none := by
  rcases displacement with _ | (bits | bits) <;> simp [sizeOf, Displacement.size]

theorem sizeOf_eq_one_iff (displacement : Option Displacement) :
    sizeOf displacement = 1 ↔ ∃ bits, displacement = some (.disp8 bits) := by
  rcases displacement with _ | (bits | bits) <;> simp [sizeOf, Displacement.size]

theorem sizeOf_eq_four_iff (displacement : Option Displacement) :
    sizeOf displacement = 4 ↔ ∃ bits, displacement = some (.disp32 bits) := by
  rcases displacement with _ | (bits | bits) <;> simp [sizeOf, Displacement.size]

theorem readDisplacement_eq_ok_iff {size : Nat} (hsize : size = 0 ∨ size = 1 ∨ size = 4)
    (displacement : Option Displacement) (bytes rest : List Byte) :
    readDisplacement size bytes = .ok (displacement, rest) ↔
      sizeOf displacement = size ∧
        bytes = (displacement.map Displacement.bytes).getD [] ++ rest := by
  rcases hsize with rfl | rfl | rfl
  · rw [readDisplacement, Reader.pure_eq_ok_iff, sizeOf_eq_zero_iff]
    apply and_congr_right
    intro hnone
    rw [hnone]
    exact eq_comm
  · rw [readDisplacement, sizeOf_eq_one_iff]
    simp only [Reader.bind_eq_ok_iff, Reader.next_eq_ok_iff, Reader.pure_eq_ok_iff]
    constructor
    · rintro ⟨byte, middle, rfl, rfl, rfl⟩
      exact ⟨⟨byte, rfl⟩, rfl⟩
    · rintro ⟨⟨bits, rfl⟩, rfl⟩
      exact ⟨bits, rest, rfl, rfl, rfl⟩
  · have hread : readDisplacement 4 = (do
        let taken ← Reader.take 4
        return some (.disp32 (BitVec.ofNat 32 (decodeLE taken)))) := rfl
    rw [hread, sizeOf_eq_four_iff]
    simp only [Reader.bind_eq_ok_iff, Reader.take_eq_ok_iff, Reader.pure_eq_ok_iff]
    constructor
    · rintro ⟨taken, middle, ⟨hlength, rfl⟩, rfl, rfl⟩
      refine ⟨⟨_, rfl⟩, ?_⟩
      have hlt : decodeLE taken < 2 ^ 32 := by
        have hbound := decodeLE_lt taken
        rwa [hlength] at hbound
      rw [Option.map_some, Option.getD_some, Displacement.bytes, BitVec.toNat_ofNat,
        Nat.mod_eq_of_lt hlt, ← hlength, encodeLE_decodeLE]
    · rintro ⟨⟨bits, rfl⟩, rfl⟩
      refine ⟨encodeLE 4 bits.toNat, rest, ⟨length_encodeLE _ _, rfl⟩, ?_, rfl⟩
      rw [decodeLE_encodeLE]
      change some (Displacement.disp32 bits) =
        some (.disp32 (BitVec.ofNat 32 (bits.toNat % 2 ^ 32)))
      rw [Nat.mod_eq_of_lt bits.isLt, BitVec.ofNat_toNat, BitVec.setWidth_eq]

theorem displacementSize_cases (m : ModRm) (sib : Option Sib) :
    displacementSize m sib = 0 ∨ displacementSize m sib = 1 ∨ displacementSize m sib = 4 := by
  unfold displacementSize
  repeat' split
  all_goals simp

/-- The two ways to say which displacement belongs to the fields. -/
theorem sizeOf_eq_displacementSize_iff {m : ModRm} (hfits : m.Fits) (sib : Option Sib)
    (displacement : Option Displacement) :
    sizeOf displacement = displacementSize m sib ↔
      ((∃ bits, displacement = some (.disp8 bits)) ↔ m.md = 1) ∧
        ((∃ bits, displacement = some (.disp32 bits)) ↔
          m.md = 2 ∨ (m.md = 0 ∧ LacksBase ⟨m, sib, displacement⟩)) := by
  have hbase : LacksBase ⟨m, sib, displacement⟩ ↔ baseField m sib = 5 := by
    cases sib <;> rfl
  have hmd := ModRm.md_cases m.md hfits.md_lt
  rw [hbase]
  unfold displacementSize sizeOf
  generalize baseField m sib = base
  by_cases h5 : base = 5#8 <;> rcases hmd with hmd | hmd | hmd | hmd <;>
    rcases displacement with _ | (bits | bits) <;>
    simp [ModRm.isRegister, Displacement.size, hmd, h5]

/-- Reading accepts the operand bytes that writing produces, and no others. -/
theorem read_eq_ok_iff (o : OperandBytes) (bytes rest : List Byte) :
    read bytes = .ok (o, rest) ↔ o.WellFormed ∧ bytes = o.bytes ++ rest := by
  unfold read
  simp only [Reader.bind_eq_ok_iff, Reader.next_eq_ok_iff, Reader.pure_eq_ok_iff, readSib_eq_ok_iff,
    readDisplacement_eq_ok_iff (displacementSize_cases _ _)]
  constructor
  · rintro ⟨byte, _, rfl, sib, _, ⟨hsib, hfits, rfl⟩, displacement, _, ⟨hsize, rfl⟩, rfl, rfl⟩
    have hmodrm := ModRm.fits_ofByte byte
    obtain ⟨h8, h32⟩ := (sizeOf_eq_displacementSize_iff hmodrm sib displacement).mp hsize
    refine ⟨⟨hmodrm, hsib.trans (needsSib_iff _), hfits, h8, h32⟩, ?_⟩
    rw [OperandBytes.bytes, ModRm.toByte_ofByte, List.cons_append, List.append_assoc]
  · rintro ⟨hwell, rfl⟩
    have hmodrm := ModRm.ofByte_toByte hwell.modrm_fits
    refine ⟨o.modrm.toByte, _, rfl, o.sib, _, ⟨?_, hwell.sib_fits, ?_⟩, o.displacement, rest,
      ⟨?_, rfl⟩, ?_, rfl⟩
    · rw [hmodrm]
      exact hwell.sib_isSome.trans (needsSib_iff _).symm
    · exact List.append_assoc _ _ _
    · rw [hmodrm]
      exact (sizeOf_eq_displacementSize_iff hwell.modrm_fits o.sib o.displacement).mpr
        ⟨hwell.disp8_iff, hwell.disp32_iff⟩
    · rw [hmodrm]

end OperandBytes

end TrapEmulation
