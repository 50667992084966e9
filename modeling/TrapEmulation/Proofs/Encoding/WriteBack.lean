import TrapEmulation.Proofs.Encoding.RoundTrip

/-!
# Writing a decoded instruction back

A decoded instruction holds every field of the bytes that it was decoded from, so its body can be
written back from the instruction alone.  Two bits of a VEX prefix are the exception: 32-bit code
takes no notice of them, and they are named here by `IgnoredBits`.
-/

namespace TrapEmulation

/-- The bits of a VEX prefix that 32-bit code takes no notice of. -/
structure IgnoredBits where
  b : Bool := false
  vvvv3 : Bool := false
  deriving DecidableEq, Repr

/-- The extra register as it was written, with the ignored bit put back. -/
def IgnoredBits.restore (ignored : IgnoredBits) (vvvv : BitVec 4) : BitVec 4 :=
  vvvv ||| (if ignored.vvvv3 then 8 else 0)

/-- The VEX fields that a mode takes no notice of. -/
def VexFields.ignoredIn (mode : Mode) (v : VexFields) : IgnoredBits :=
  match mode with
  | .bits64 => {}
  | .bits32 => { b := v.b, vvvv3 := v.vvvv.getLsbD 3 }

theorem VexFields.restore_vvvvIn (mode : Mode) (v : VexFields) :
    (v.ignoredIn mode).restore (v.vvvvIn mode) = v.vvvv := by
  have hall : ∀ vvvv : BitVec 4, (vvvv &&& 7) ||| (if vvvv.getLsbD 3 then 8 else 0) = vvvv := by
    decide
  cases mode with
  | bits64 => exact BitVec.or_zero
  | bits32 => exact hall v.vvvv

theorem VexFields.vvvvIn_bits32_lt (v : VexFields) : (v.vvvvIn .bits32).toNat < 8 := by
  have hall : ∀ vvvv : BitVec 4, (vvvv &&& 7).toNat < 8 := by
    decide
  exact hall v.vvvv

/-- The body of an instruction, from its own fields and the ignored bits. -/
def Instruction.toBody (i : Instruction) (ignored : IgnoredBits) : Body where
  vex := i.vex.map fun _ ↦
    { r := i.extension.r
      x := i.extension.x
      b := i.extension.b || ignored.b
      w := i.extension.w
      vvvv := ignored.restore i.vvvv
      mandatory := i.mandatory }
  map := i.map
  opcode := i.opcode
  operands := ⟨i.modrm, i.sib, i.displacement⟩
  immediate := i.immediate

/-- What a body means determines the body, up to the ignored bits. -/
theorem toBody_describe (mode : Mode) (prefixes : List Byte) (body : Body) :
    ∃ ignored : IgnoredBits, (mode = .bits64 → ignored = {}) ∧
      (describe mode prefixes body).toBody ignored = body := by
  obtain ⟨vex, map, opcode, operands, immediate⟩ := body
  cases vex with
  | none => exact ⟨{}, fun _ ↦ rfl, rfl⟩
  | some v =>
    refine ⟨v.ignoredIn mode, ?_, ?_⟩
    · intro hmode
      rw [hmode]
      rfl
    · have hb : ((v.extensionIn mode).b || (v.ignoredIn mode).b) = v.b := by
        cases mode
        · simp [VexFields.extensionIn, VexFields.ignoredIn]
        · simp [VexFields.extensionIn, VexFields.ignoredIn]
      simp only [Instruction.toBody, describe, Option.map_some, hb, v.restore_vvvvIn]
      rfl

/-- A body has an opcode map of at least two bytes, an opcode and an operand byte, and an immediate
byte wherever the map is written with two. -/
theorem Body.Legal.five_le_length {body : Body} (hlegal : body.Legal) : 5 ≤ body.bytes.length := by
  have hoperands : 1 ≤ body.operands.bytes.length := by
    rw [OperandBytes.bytes, List.length_cons]
    omega
  have hlength : body.bytes.length = (headBytes body.vex body.map).length +
      (body.operands.bytes.length + body.immediate.toList.length + 1) := by
    rw [Body.bytes, List.length_append, List.length_cons, List.length_append]
  rw [hlength]
  cases hvex : body.vex with
  | some v =>
    have hhead : (headBytes (some v) body.map).length = 3 := rfl
    omega
  | none =>
    have hmap : body.map = .map0F3A := by
      rcases hlegal.recognized with ⟨hsome, -⟩ | ⟨hsome, -⟩ | ⟨-, h, -⟩
      · rw [hvex] at hsome
        cases hsome
      · rw [hvex] at hsome
        cases hsome
      · exact h
    obtain ⟨byte, hbyte⟩ := Option.isSome_iff_exists.mp (hlegal.immediate.mpr hmap)
    have hhead : (headBytes none OpcodeMap.map0F3A).length = 2 := rfl
    have himmediate : body.immediate.toList.length = 1 := by
      rw [hbyte]
      rfl
    rw [hmap]
    omega

/-- Without extension bits a register field names one of eight registers. -/
theorem regIndex_lt {i : Instruction} (hfits : i.modrm.Fits) (hr : i.extension.r = false) :
    i.regIndex < 8 := by
  have hreg := hfits.reg_lt
  rw [Instruction.regIndex, hr, Bool.toNat_false]
  omega

theorem rmIndex_lt {i : Instruction} (hfits : i.modrm.Fits) (hb : i.extension.b = false) :
    i.rmIndex < 8 := by
  have hrm := hfits.rm_lt
  rw [Instruction.rmIndex, hb, Bool.toNat_false]
  omega

/-- Without a REX byte a legacy encoding extends no register field. -/
theorem legacyExtension_of_not_isRex {mode : Mode} {prefixes : List Byte}
    (hrex : ∀ byte ∈ prefixes, ¬ IsRex mode byte) : legacyExtension mode prefixes = {} := by
  unfold legacyExtension
  cases hlast : prefixes.getLast? with
  | none => rfl
  | some byte => exact if_neg (hrex byte (List.mem_of_getLast? hlast))

/-- There is no REX byte in 32-bit code. -/
theorem legacyExtension_bits32 (prefixes : List Byte) : legacyExtension .bits32 prefixes = {} := by
  apply legacyExtension_of_not_isRex
  rintro byte - ⟨⟨⟩, -⟩

/-! ## Decoded instructions -/

/-- What every decoded instruction satisfies, whatever its prefixes. -/
structure Instruction.Canonical (i : Instruction) : Prop where
  vex_ne_twoByte : i.vex ≠ some .twoByte
  map_of_legacy : i.vex = none → i.map = .map0F3A
  operands : OperandBytes.WellFormed ⟨i.modrm, i.sib, i.displacement⟩
  immediate_iff : i.immediate.isSome ↔ i.map = .map0F3A
  vvvv_lt : i.vvvv.toNat < 16
  /-- There are eight registers in 32-bit code. -/
  registers_lt : i.mode = .bits32 → i.regIndex < 8 ∧ i.rmIndex < 8 ∧ i.vvvv.toNat < 8
  length_ge : 5 ≤ i.length
  length_le : i.length ≤ 15

theorem registers_describe_lt {prefixes : List Byte} {body : Body} (hlegal : body.Legal)
    (hfollows : Follows .bits32 prefixes body.vex) :
    let i := describe .bits32 prefixes body
    i.regIndex < 8 ∧ i.rmIndex < 8 ∧ i.vvvv.toNat < 8 := by
  intro i
  have hfits : i.modrm.Fits := hlegal.operands.modrm_fits
  have hrestricted : i.extension.r = false ∧ i.extension.b = false ∧ i.vvvv.toNat < 8 := by
    obtain ⟨vex, map, opcode, operands, immediate⟩ := body
    cases vex with
    | none =>
      have hextension : i.extension = {} := legacyExtension_bits32 prefixes
      have hvvvv : i.vvvv = 0 := rfl
      rw [hextension, hvvvv]
      exact ⟨rfl, rfl, by decide⟩
    | some v =>
      have hr : v.r = false := (hfollows.top_bits rfl v rfl).1
      exact ⟨hr, Bool.and_false _, v.vvvvIn_bits32_lt⟩
  obtain ⟨hr, hb, hvvvv⟩ := hrestricted
  exact ⟨regIndex_lt hfits hr, rmIndex_lt hfits hb, hvvvv⟩

theorem canonical_describe {mode : Mode} {prefixes : List Byte} {body : Body}
    (hlegal : body.Legal) (hadmits : Admits mode prefixes body) :
    (describe mode prefixes body).Canonical where
  vex_ne_twoByte := by
    intro hvex
    obtain ⟨v, -, htwo⟩ := Option.map_eq_some_iff.mp hvex
    cases htwo
  map_of_legacy := by
    intro hvex
    have hnone : body.vex = none := Option.map_eq_none_iff.mp hvex
    rcases hlegal.recognized with ⟨hsome, -⟩ | ⟨hsome, -⟩ | ⟨-, hmap, -⟩
    · rw [hnone] at hsome
      cases hsome
    · rw [hnone] at hsome
      cases hsome
    · exact hmap
  operands := hlegal.operands
  immediate_iff := hlegal.immediate
  vvvv_lt := BitVec.isLt _
  registers_lt := by
    intro hmode
    obtain rfl : mode = .bits32 := hmode
    exact registers_describe_lt hlegal hadmits.follows
  length_ge := Nat.le_trans hlegal.five_le_length (Nat.le_add_left _ _)
  length_le := hadmits.length_le

theorem canonical_of_decode {mode : Mode} {bytes : List Byte} {i : Instruction}
    (hdecode : decode mode bytes = .ok i) : i.mode = mode ∧ i.Canonical := by
  obtain ⟨prefixes, body, rest, -, hlegal, hadmits, rfl⟩ := (decode_eq_ok_iff mode bytes i).mp hdecode
  exact ⟨rfl, canonical_describe hlegal hadmits⟩

/-- A decoded instruction accounts for exactly the bytes that it took: they are prefixes, and then its
own fields written back. -/
theorem exists_encoding_of_decode {mode : Mode} {bytes : List Byte} {i : Instruction}
    (h : decode mode bytes = .ok i) :
    ∃ prefixes ignored,
      (mode = .bits64 → ignored = {}) ∧
      bytes.take i.length = prefixes ++ (i.toBody ignored).bytes ∧
      i.length = prefixes.length + (i.toBody ignored).bytes.length ∧
      (i.toBody ignored).Legal ∧
      Admits mode prefixes (i.toBody ignored) ∧
      i = describe mode prefixes (i.toBody ignored) ∧
      i.Canonical := by
  obtain ⟨prefixes, body, rest, rfl, hlegal, hadmits, rfl⟩ := (decode_eq_ok_iff mode bytes i).mp h
  obtain ⟨ignored, hignored, hbody⟩ := toBody_describe mode prefixes body
  refine ⟨prefixes, ignored, hignored, ?_, ?_, ?_, ?_, ?_, canonical_describe hlegal hadmits⟩
  · have hlength : (describe mode prefixes body).length = (prefixes ++ body.bytes).length :=
      List.length_append.symm
    rw [hbody, hlength, List.take_left]
  · rw [hbody]
    rfl
  · rw [hbody]
    exact hlegal
  · rw [hbody]
    exact hadmits
  · rw [hbody]

/-- An instruction of 32-bit code whose encoding has both ignored bits set. -/
def narrowedInstruction : Instruction where
  mode := .bits32
  vex := some .threeByte
  extension := {}
  vvvv := 3
  mandatory := .absent
  map := .map0F38
  opcode := 0xF2
  modrm := ⟨0, 1, 5⟩
  sib := none
  displacement := some (.disp32 0x12345678)
  immediate := none
  segment := some .fs
  addressSizeOverride := false
  family := .bitManipulation
  length := 10

theorem exists_encoding_of_decode_narrowed :
    let bytes : List Byte :=
      [0x64, 0xC4, 0xC2, 0x20, 0xF2, 0x0D, 0x78, 0x56, 0x34, 0x12, 0x90, 0x90]
    decode .bits32 bytes = .ok narrowedInstruction ∧
      ∃ prefixes ignored,
        bytes.take 10 = prefixes ++ (narrowedInstruction.toBody ignored).bytes ∧
        narrowedInstruction = describe .bits32 prefixes (narrowedInstruction.toBody ignored) := by
  intro bytes
  have hdecode : decode .bits32 bytes = .ok narrowedInstruction := by rfl
  obtain ⟨prefixes, ignored, -, hbytes, -, -, -, hdescribe, -⟩ := exists_encoding_of_decode hdecode
  exact ⟨hdecode, prefixes, ignored, hbytes, hdescribe⟩

end TrapEmulation
