import TrapEmulation.OpcodeTable
import TrapEmulation.Proofs.Encoding.WriteBack

/-!
# One encoding in both modes

What 32-bit code has for an instruction is one in 64-bit code as well, made up of the same parts.  The modes
differ in the segments that they honour and in two bits of a VEX prefix, of which 32-bit code takes no notice.
Where these two bits are set, which is how an unextended register is written, no difference is left but the
segment.
-/

namespace TrapEmulation

/-! ## Prefixes -/

/-- The prefix bytes of 32-bit code are those of 64-bit code less the REX bytes. -/
theorem isPrefix_bits32_iff : ∀ byte : Byte,
    IsPrefix .bits32 byte ↔ IsPrefix .bits64 byte ∧ ¬ IsRex .bits64 byte := by
  decide

/-- In front of a body the prefixes are all the bytes that may stand in a prefix run. -/
theorem takeWhile_isPrefix {mode : Mode} {prefixes : List Byte}
    (hprefixes : ∀ byte ∈ prefixes, IsPrefix mode byte) (body : Body) (rest : List Byte) :
    (prefixes ++ body.bytes ++ rest).takeWhile (IsPrefix mode) = prefixes := by
  obtain ⟨byte, tail, hbytes, hbyte⟩ := bytes_eq_cons mode body rest
  rw [List.append_assoc, hbytes, List.takeWhile_append_of_pos (by simpa using hprefixes),
    List.takeWhile_cons_of_neg (by simpa using hbyte), List.append_nil]

/-- The prefixes and the body make up an instruction of 32-bit code if they make up one of 64-bit code that has
no REX byte, does not ask for another address size, and extends neither of two registers. -/
theorem admits_bits32_iff (prefixes : List Byte) (body : Body) :
    Admits .bits32 prefixes body ↔
      Admits .bits64 prefixes body ∧ (∀ byte ∈ prefixes, ¬ IsRex .bits64 byte) ∧ 0x67 ∉ prefixes ∧
        ∀ v ∈ body.vex, v.r = false ∧ v.x = false := by
  constructor
  · intro h
    have heach (byte : Byte) (hmem : byte ∈ prefixes) :
        IsPrefix .bits64 byte ∧ ¬ IsRex .bits64 byte :=
      (isPrefix_bits32_iff byte).mp (h.isPrefix byte hmem)
    have hrex : ∀ byte ∈ prefixes, ¬ IsRex .bits64 byte := fun byte hmem ↦ (heach byte hmem).2
    have hfollows : Follows .bits64 prefixes body.vex := by
      refine ⟨fun hvex ↦ ?_, by rintro ⟨⟩⟩
      obtain ⟨h66, hF2, hF3, -⟩ := h.follows.before_vex hvex
      exact ⟨h66, hF2, hF3, fun byte hlast ↦ hrex byte (List.mem_of_getLast? hlast)⟩
    exact ⟨⟨fun byte hmem ↦ (heach byte hmem).1, h.lock, by rintro ⟨⟩, hfollows, h.length_le⟩, hrex,
      h.addressSize rfl, h.follows.top_bits rfl⟩
  · rintro ⟨h, hrex, haddress, htop⟩
    have hfollows : Follows .bits32 prefixes body.vex := by
      refine ⟨fun hvex ↦ ?_, fun _ ↦ htop⟩
      obtain ⟨h66, hF2, hF3, -⟩ := h.follows.before_vex hvex
      exact ⟨h66, hF2, hF3, by rintro _ _ ⟨⟨⟩, -⟩⟩
    have heach (byte : Byte) (hmem : byte ∈ prefixes) : IsPrefix .bits32 byte :=
      (isPrefix_bits32_iff byte).mpr ⟨h.isPrefix byte hmem, hrex byte hmem⟩
    exact ⟨heach, h.lock, fun _ ↦ haddress, hfollows, h.length_le⟩

/-! ## Fields -/

/-- What 64-bit code reads in an encoding of 32-bit code, part by part. -/
theorem describe_bits64 {prefixes : List Byte} (body : Body)
    (hrex : ∀ byte ∈ prefixes, ¬ IsRex .bits64 byte) :
    let narrow := describe .bits32 prefixes body
    let wide := describe .bits64 prefixes body
    wide = { narrow with
      mode := .bits64
      extension := { narrow.extension with b := wide.extension.b }
      vvvv := wide.vvvv
      segment := lastMeaning (selectedSegment? .bits64) prefixes } := by
  obtain ⟨vex, map, opcode, operands, immediate⟩ := body
  cases vex with
  | some v => rfl
  | none =>
    have hwide : legacyExtension .bits64 prefixes = {} := legacyExtension_of_not_isRex hrex
    have hnarrow : legacyExtension .bits32 prefixes = {} := legacyExtension_bits32 prefixes
    simp only [describe, hwide, hnarrow]

/-- The two bits of a VEX prefix that 32-bit code takes no notice of are set in its payload bytes, where
they are stored inverted. -/
def IgnoredBitsSet : List Byte → Prop
  | first :: second :: _ => first.getLsbD 5 = true ∧ second.getLsbD 6 = true
  | _ => False

/-- A prefix whose ignored bits are set extends neither of the two registers. -/
theorem VexFields.unextended_of_ignoredBitsSet {v : VexFields} {map : OpcodeMap} {rest : List Byte}
    (h : IgnoredBitsSet (v.firstByte map :: v.secondByte :: rest)) :
    v.b = false ∧ v.vvvv &&& 7 = v.vvvv := by
  obtain ⟨hfirst, hsecond⟩ := h
  obtain ⟨-, -, hb, -⟩ := v.firstByte_fields map
  obtain ⟨-, hvvvv, -, -⟩ := v.secondByte_fields
  have hlow : ∀ second : Byte, second.getLsbD 6 = true →
      ~~~(second.extractLsb' 3 4) &&& 7 = ~~~(second.extractLsb' 3 4) := by
    decide
  constructor
  · rw [hfirst] at hb
    exact Bool.not_eq_true' v.b |>.mp hb.symm
  · rw [← hvvvv]
    exact hlow v.secondByte hsecond

/-- The mode makes no difference to the fields of a legacy encoding without a REX byte, nor to those of a VEX
prefix whose ignored bits are set. -/
theorem describe_bits64_of_unextended {prefixes : List Byte} {body : Body} (rest : List Byte)
    (hrex : ∀ byte ∈ prefixes, ¬ IsRex .bits64 byte)
    (hplain : body.vex = none ∨ IgnoredBitsSet ((body.bytes ++ rest).drop 1)) :
    (describe .bits64 prefixes body).extension = (describe .bits32 prefixes body).extension ∧
      (describe .bits64 prefixes body).vvvv = (describe .bits32 prefixes body).vvvv := by
  obtain ⟨vex, map, opcode, operands, immediate⟩ := body
  cases vex with
  | none =>
    refine ⟨?_, rfl⟩
    exact (legacyExtension_of_not_isRex hrex).trans (legacyExtension_bits32 prefixes).symm
  | some v =>
    have hset : IgnoredBitsSet (v.firstByte map :: v.secondByte :: _) := hplain.resolve_left (by simp)
    obtain ⟨hb, hvvvv⟩ := VexFields.unextended_of_ignoredBitsSet hset
    constructor
    · simp only [describe, VexFields.extensionIn, hb, Bool.false_and]
    · exact hvvvv.symm

/-- Bytes begin with an instruction of 32-bit code if they begin with one of 64-bit code that has no REX byte,
does not ask for another address size, and extends neither of two registers in a VEX prefix. -/
theorem exists_decode_bits32_iff (bytes : List Byte) :
    (∃ i, decode .bits32 bytes = .ok i) ↔
      ∃ j, decode .bits64 bytes = .ok j ∧
        (∀ byte ∈ bytes.takeWhile (IsPrefix .bits64), ¬ IsRex .bits64 byte) ∧
        j.addressSizeOverride = false ∧
        (j.isVex = true → j.extension.r = false ∧ j.extension.x = false) := by
  simp only [decode_eq_ok_iff]
  constructor
  · rintro ⟨i, prefixes, body, rest, rfl, hlegal, hadmits, rfl⟩
    obtain ⟨hwide, hrex, haddress, htop⟩ := (admits_bits32_iff prefixes body).mp hadmits
    refine ⟨_, ⟨prefixes, body, rest, rfl, hlegal, hwide, rfl⟩, ?_, ?_, fun hvex ↦ ?_⟩
    · rwa [takeWhile_isPrefix hwide.isPrefix]
    · simpa [describe] using haddress
    · rw [Instruction.isVex, describe, Option.isSome_map] at hvex
      obtain ⟨v, hv⟩ := Option.isSome_iff_exists.mp hvex
      simpa only [describe, hv, VexFields.extensionIn] using htop v hv
  · rintro ⟨j, ⟨prefixes, body, rest, rfl, hlegal, hadmits, rfl⟩, hrex, haddress, htop⟩
    rw [takeWhile_isPrefix hadmits.isPrefix] at hrex
    refine ⟨_, prefixes, body, rest, rfl, hlegal, ?_, rfl⟩
    refine (admits_bits32_iff prefixes body).mpr ⟨hadmits, hrex, ?_, fun v hv ↦ ?_⟩
    · simpa [describe] using haddress
    · have hv : body.vex = some v := hv
      simpa only [Instruction.isVex, describe, hv, Option.map_some, Option.isSome_some, forall_const,
        VexFields.extensionIn] using htop

/-- An instruction of 32-bit code is one of 64-bit code with the same prefixes, the same length and the same
parts.  Only the segment, the bit that extends the r/m field and the top bit of the extra register may differ.
The last two do not where the encoding is a legacy one or has its ignored bits set, and then the two
instructions have the same operation. -/
theorem decode_bits64_of_decode_bits32 {bytes : List Byte} {i : Instruction}
    (h : decode .bits32 bytes = .ok i) :
    let run := bytes.takeWhile (IsPrefix .bits32)
    ∃ j, decode .bits64 bytes = .ok j ∧
      bytes.takeWhile (IsPrefix .bits64) = run ∧
      j = { i with
        mode := .bits64
        extension := { i.extension with b := j.extension.b }
        vvvv := j.vvvv
        segment := lastMeaning (selectedSegment? .bits64) run } ∧
      j.addressSizeOverride = false ∧
      j.vvvv &&& 7 = i.vvvv &&& 7 ∧
      (i.vex = none ∨ IgnoredBitsSet (bytes.drop (run.length + 1)) →
        j.extension = i.extension ∧ j.vvvv = i.vvvv ∧ j.operation? = i.operation?) := by
  obtain ⟨prefixes, body, rest, rfl, hlegal, hadmits, rfl⟩ := (decode_eq_ok_iff _ _ _).mp h
  obtain ⟨hwide, hrex, haddress, -⟩ := (admits_bits32_iff prefixes body).mp hadmits
  have hrun := takeWhile_isPrefix hadmits.isPrefix body rest
  have hparts := describe_bits64 body hrex
  intro run
  have hprefixes : run = prefixes := hrun
  refine ⟨describe .bits64 prefixes body, ?_, ?_, ?_, ?_, ?_, fun hplain ↦ ?_⟩
  · exact (decode_eq_ok_iff _ _ _).mpr ⟨prefixes, body, rest, rfl, hlegal, hwide, rfl⟩
  · rw [hprefixes, takeWhile_isPrefix hwide.isPrefix]
  · rw [hprefixes]
    exact hparts
  · simpa [describe] using haddress
  · cases hvex : body.vex with
    | none => simp only [describe, hvex]
    | some v => simp [describe, hvex, VexFields.vvvvIn, BitVec.and_assoc]
  · have hdrop : (prefixes ++ body.bytes ++ rest).drop (run.length + 1) = (body.bytes ++ rest).drop 1 := by
      rw [hprefixes, List.append_assoc, List.drop_length_add_append]
    have hlegacy : (describe .bits32 prefixes body).vex = none ↔ body.vex = none := Option.map_eq_none_iff
    rw [hdrop, hlegacy] at hplain
    obtain ⟨hextension, hvvvv⟩ := describe_bits64_of_unextended rest hrex hplain
    refine ⟨hextension, hvvvv, ?_⟩
    rw [hparts, hvvvv]
    rfl

/-- An override of FS and then one of CS, which counts in 32-bit code only. -/
theorem decode_bits64_of_decode_bits32_overridden :
    let bytes : List Byte :=
      [0x64, 0x2E, 0xC4, 0xE2, 0x60, 0xF2, 0x0D, 0x78, 0x56, 0x34, 0x12, 0x90]
    let narrow := { narrowedInstruction with segment := some .cs, length := 11 }
    decode .bits32 bytes = .ok narrow ∧ IgnoredBitsSet (bytes.drop 3) ∧
      ∃ wide, decode .bits64 bytes = .ok wide ∧ wide.segment = some .fs ∧
        wide.vvvv = 3 ∧ wide.operation? = some (.bit .andn) := by
  intro bytes narrow
  have hdecode : decode .bits32 bytes = .ok narrow := by rfl
  have hset : IgnoredBitsSet (bytes.drop 3) := ⟨rfl, rfl⟩
  obtain ⟨wide, hwide, -, hparts, -, -, hplain⟩ := decode_bits64_of_decode_bits32 hdecode
  obtain ⟨-, hvvvv, hoperation⟩ := hplain (.inr hset)
  have hsegment : lastMeaning (selectedSegment? .bits64) (bytes.takeWhile (IsPrefix .bits32)) =
      some .fs := by
    decide
  exact ⟨hdecode, hset, wide, hwide, (congrArg Instruction.segment hparts).trans hsegment, hvvvv,
    hoperation.trans (by decide)⟩

/-- With the top bit of the extra register written as one, only 32-bit code takes it for unused. -/
example :
    let bytes : List Byte := [0xC4, 0xE3, 0x39, 0x63, 0xCA, 0x00]
    (decode .bits32 bytes).map Instruction.operation? = .ok (some (.compare .pcmpistri)) ∧
      (decode .bits64 bytes).map Instruction.operation? = .ok none := by
  exact ⟨rfl, rfl⟩

end TrapEmulation
