import TrapEmulation.Proofs.Encoding.Grammar

/-!
# Decoding inverts writing

Decoding accepts exactly the encodings of the grammar, at the front of any byte string, and gives
exactly what they mean.  So a decoded instruction accounts for every byte that it took.
-/

namespace TrapEmulation

/-! ## The parts of a body -/

/-- The head of a body after the given prefixes. -/
def headOf (mode : Mode) (prefixes : List Byte) (vex : Option VexFields) (map : OpcodeMap) : Head :=
  match vex with
  | some v => v.head mode map
  | none => .ofRun (.ofBytes mode prefixes) map

theorem map_headOf (mode : Mode) (prefixes : List Byte) (vex : Option VexFields)
    (map : OpcodeMap) : (headOf mode prefixes vex map).map = map := by
  cases vex <;> rfl

theorem isSome_vex_headOf (mode : Mode) (prefixes : List Byte) (vex : Option VexFields)
    (map : OpcodeMap) : (headOf mode prefixes vex map).vex.isSome = vex.isSome := by
  cases vex <;> rfl

/-- Reading a head after prefixes without LOCK accepts exactly what may follow them. -/
theorem readHead_eq_ok_iff {mode : Mode} {prefixes : List Byte} (hlock : 0xF0 ∉ prefixes)
    {head : Head} (hmap : head.map ≠ .map0F) (bytes rest : List Byte) :
    Head.read mode (.ofBytes mode prefixes) bytes = .ok (head, rest) ↔
      ∃ vex, Follows mode prefixes vex ∧ head = headOf mode prefixes vex head.map ∧
        bytes = headBytes vex head.map ++ rest := by
  rw [Head.read_eq_ok_iff hmap, conflictsWithVex_ofBytes_iff]
  constructor
  · rintro (⟨v, ⟨h66, hF2, hF3, -, hrex⟩, htop, hhead, hbytes⟩ | ⟨hhead, hbytes⟩)
    · refine ⟨some v, ⟨fun _ ↦ ⟨h66, hF2, hF3, hrex⟩, ?_⟩, hhead, hbytes⟩
      intro hmode found hfound
      cases hfound
      exact htop hmode
    · exact ⟨none, ⟨by rintro ⟨⟩, by rintro - _ ⟨⟩⟩, hhead, hbytes⟩
  · rintro ⟨vex | v, hfollows, hhead, hbytes⟩
    · exact .inr ⟨hhead, hbytes⟩
    · obtain ⟨h66, hF2, hF3, hrex⟩ := hfollows.before_vex rfl
      exact .inl ⟨v, ⟨h66, hF2, hF3, hlock, hrex⟩, fun hmode ↦ hfollows.top_bits hmode v rfl, hhead,
        hbytes⟩

theorem ofOpcode?_eq_some_iff (body : Body) (family : Family) :
    Family.ofOpcode? body.vex.isSome body.map body.opcode = some family ↔
      body.Recognized ∧ family = body.family := by
  obtain ⟨vex, map, opcode, operands, immediate⟩ := body
  have hall : ∀ vex : Bool, ∀ map : OpcodeMap, ∀ opcode : Byte, ∀ family : Family,
      Family.ofOpcode? vex map opcode = some family ↔
        ((vex ∧ map = .map0F38 ∧ opcode ∈ [0xF2, 0xF3, 0xF5, 0xF6, 0xF7]) ∨
          (vex ∧ map = .map0F3A ∧ opcode ∈ [0xF0, 0x60, 0x61, 0x62, 0x63]) ∨
          (vex = false ∧ map = .map0F3A ∧ opcode ∈ [0x60, 0x61, 0x62, 0x63])) ∧
        family =
          if [0x60, 0x61, 0x62, 0x63].contains opcode then .stringCompare else .bitManipulation := by
    intro vex map opcode family
    cases map <;> cases family <;> cases vex <;> revert opcode <;> decide
  have hvex : vex.isSome = false ↔ vex = none := by
    rw [Option.isSome_eq_false_iff, Option.isNone_iff_eq_none]
  rw [hall, hvex]
  rfl

theorem readImmediate_eq_ok_iff (map : OpcodeMap) (immediate : Option Byte)
    (bytes rest : List Byte) :
    Instruction.readImmediate map bytes = .ok (immediate, rest) ↔
      (immediate.isSome ↔ map = .map0F3A) ∧ bytes = immediate.toList ++ rest := by
  by_cases hmap : map = .map0F3A
  · subst hmap
    simp only [Instruction.readImmediate, Reader.bind_eq_ok_iff, Reader.next_eq_ok_iff,
      Reader.pure_eq_ok_iff, iff_true]
    constructor
    · rintro ⟨byte, _, rfl, rfl, rfl⟩
      exact ⟨rfl, rfl⟩
    · rintro ⟨hsome, rfl⟩
      obtain ⟨byte, rfl⟩ := Option.isSome_iff_exists.mp hsome
      exact ⟨byte, rest, rfl, rfl, rfl⟩
  · have hread : Instruction.readImmediate map = pure none := by
      cases map with
      | map0F => rfl
      | map0F38 => rfl
      | map0F3A => exact absurd rfl hmap
    rw [hread, Reader.pure_eq_ok_iff]
    simp only [hmap, iff_false, Bool.not_eq_true, Option.isSome_eq_false_iff,
      Option.isNone_iff_eq_none]
    apply and_congr_right
    intro hnone
    rw [hnone]
    exact eq_comm

/-! ## Bodies -/

/-- The description of a body, with the parts of its head named by the head. -/
theorem describe_eq (mode : Mode) (prefixes : List Byte) (body : Body) :
    describe mode prefixes body =
      let head := headOf mode prefixes body.vex body.map
      { mode
        vex := head.vex
        extension := head.extension
        vvvv := head.vvvv
        mandatory := head.mandatory
        map := body.map
        opcode := body.opcode
        modrm := body.operands.modrm
        sib := body.operands.sib
        displacement := body.operands.displacement
        immediate := body.immediate
        segment := (PrefixRun.ofBytes mode prefixes).segment
        addressSizeOverride := (PrefixRun.ofBytes mode prefixes).addressSize
        family := body.family
        length := prefixes.length + body.bytes.length } := by
  obtain ⟨vex, map, opcode, operands, immediate⟩ := body
  cases vex with
  | some v =>
    simp only [describe, headOf, VexFields.head]
    rfl
  | none =>
    simp only [describe, headOf, Head.ofRun, rex_ofBytes, mandatory_ofBytes]
    rfl

/-- Reading a body accepts the legal bodies that may follow the prefixes. -/
theorem readBody_eq_ok_iff {mode : Mode} {prefixes : List Byte} (hlock : 0xF0 ∉ prefixes)
    (start : Nat) (bytes rest : List Byte) (i : Instruction) :
    Instruction.readBody mode start (.ofBytes mode prefixes) bytes = .ok (i, rest) ↔
      ∃ body : Body, body.Legal ∧ Follows mode prefixes body.vex ∧ bytes = body.bytes ++ rest ∧
        i = { describe mode prefixes body with length := start - rest.length } := by
  unfold Instruction.readBody
  simp only [Reader.bind_eq_ok_iff, Reader.next_eq_ok_iff]
  constructor
  · rintro ⟨head, _, hhead, opcode, middle, rfl, h⟩
    cases hfamily : Family.ofOpcode? head.vex.isSome head.map opcode with
    | none =>
      rw [hfamily] at h
      exact absurd h (Reader.refuse_ne_ok _)
    | some family =>
      rw [hfamily] at h
      simp only [Reader.bind_eq_ok_iff, Reader.pure_eq_ok_iff, Reader.get_eq_ok_iff,
        OperandBytes.read_eq_ok_iff, readImmediate_eq_ok_iff] at h
      obtain ⟨operands, _, ⟨hoperands, rfl⟩, immediate, _, ⟨himmediate, rfl⟩, _, _, ⟨rfl, rfl⟩, rfl,
        rfl⟩ := h
      have hmap : head.map ≠ .map0F := by
        intro hmap
        rw [hmap] at hfamily
        cases hfamily
      obtain ⟨vex, hfollows, hvex, rfl⟩ := (readHead_eq_ok_iff hlock hmap _ _).mp hhead
      let body : Body := ⟨vex, head.map, opcode, operands, immediate⟩
      obtain ⟨hrecognized, rfl⟩ : body.Recognized ∧ family = body.family := by
        rw [← ofOpcode?_eq_some_iff, ← hfamily, hvex, isSome_vex_headOf, map_headOf]
      refine ⟨body, ⟨hrecognized, hoperands, himmediate⟩, hfollows, ?_, ?_⟩
      · simp only [body, Body.bytes, List.append_assoc, List.cons_append]
      · rw [describe_eq]
        simp only [body, ← hvex]
  · rintro ⟨body, hlegal, hfollows, rfl, rfl⟩
    let head := headOf mode prefixes body.vex body.map
    have hmap : head.map ≠ .map0F := by
      rw [map_headOf]
      rcases hlegal.recognized with ⟨-, h, -⟩ | ⟨-, h, -⟩ | ⟨-, h, -⟩ <;> rw [h] <;> decide
    have hfamily : Family.ofOpcode? head.vex.isSome head.map body.opcode = some body.family := by
      rw [isSome_vex_headOf, map_headOf, ofOpcode?_eq_some_iff]
      exact ⟨hlegal.recognized, rfl⟩
    have hhead := (readHead_eq_ok_iff hlock hmap (body.bytes ++ rest)
      (body.opcode :: (body.operands.bytes ++ (body.immediate.toList ++ rest)))).mpr
        ⟨body.vex, hfollows, by rw [map_headOf], by
          rw [map_headOf, Body.bytes, List.append_assoc, List.cons_append, List.append_assoc]⟩
    refine ⟨head, _, hhead, body.opcode, _, rfl, ?_⟩
    rw [hfamily]
    simp only [Reader.bind_eq_ok_iff, Reader.pure_eq_ok_iff, Reader.get_eq_ok_iff,
      OperandBytes.read_eq_ok_iff, readImmediate_eq_ok_iff]
    refine ⟨body.operands, _, ⟨hlegal.operands, rfl⟩, body.immediate, rest, ⟨?_, rfl⟩, rest, rest,
      ⟨rfl, rfl⟩, ?_, rfl⟩
    · rw [map_headOf]
      exact hlegal.immediate
    · rw [describe_eq]
      simp only [head, map_headOf]

/-! ## Instructions -/

theorem refusesRun_ofBytes_iff (mode : Mode) (prefixes : List Byte) :
    Instruction.refusesRun mode (.ofBytes mode prefixes) = false ↔
      0xF0 ∉ prefixes ∧ (mode = .bits32 → 0x67 ∉ prefixes) := by
  rw [Instruction.refusesRun, Bool.or_eq_false_iff, Bool.and_eq_false_imp, lock_ofBytes,
    addressSize_ofBytes, decide_eq_false_iff_not, decide_eq_false_iff_not, beq_iff_eq]

/-- A body begins with a byte that is no prefix, so the prefixes before it end there. -/
theorem bytes_eq_cons (mode : Mode) (body : Body) (rest : List Byte) :
    ∃ byte tail, body.bytes ++ rest = byte :: tail ∧ ¬ IsPrefix mode byte := by
  have hhead : ∃ byte tail, headBytes body.vex body.map = byte :: tail ∧
      (byte = 0xC4 ∨ byte = 0x0F) := by
    cases body.vex with
    | some v => exact ⟨0xC4, _, rfl, .inl rfl⟩
    | none => cases body.map <;> exact ⟨0x0F, _, rfl, .inr rfl⟩
  obtain ⟨byte, tail, hbytes, hbyte⟩ := hhead
  refine ⟨byte, _, by rw [Body.bytes, hbytes]; rfl, ?_⟩
  rcases hbyte with rfl | rfl <;> cases mode <;> decide

/-- Reading takes an encoding of the grammar from the front of the bytes. -/
theorem read_eq_ok_iff (mode : Mode) (bytes rest : List Byte) (i : Instruction) :
    Instruction.read mode bytes = .ok (i, rest) ↔
      ∃ prefixes body, bytes = prefixes ++ body.bytes ++ rest ∧
        (∀ byte ∈ prefixes, IsPrefix mode byte) ∧ 0xF0 ∉ prefixes ∧
        (mode = .bits32 → 0x67 ∉ prefixes) ∧ body.Legal ∧ Follows mode prefixes body.vex ∧
        i = describe mode prefixes body := by
  have hlength (prefixes : List Byte) (body : Body) :
      (prefixes ++ body.bytes ++ rest).length - rest.length =
        (describe mode prefixes body).length := by
    rw [List.length_append, Nat.add_sub_cancel, List.length_append]
    rfl
  unfold Instruction.read
  simp only [Reader.bind_eq_ok_iff, Reader.get_eq_ok_iff, scan_eq_ok_iff]
  constructor
  · rintro ⟨_, _, ⟨rfl, rfl⟩, _, middle, ⟨prefixes, rfl, hprefixes, -, rfl⟩, h⟩
    cases hrefuses : Instruction.refusesRun mode (.ofBytes mode prefixes) with
    | true =>
      rw [hrefuses] at h
      exact absurd h (Reader.refuse_ne_ok _)
    | false =>
      obtain ⟨hlock, haddress⟩ := (refusesRun_ofBytes_iff mode prefixes).mp hrefuses
      rw [hrefuses, if_neg Bool.false_ne_true, readBody_eq_ok_iff hlock] at h
      obtain ⟨body, hlegal, hfollows, rfl, rfl⟩ := h
      refine ⟨prefixes, body, (List.append_assoc _ _ _).symm, hprefixes, hlock, haddress, hlegal,
        hfollows, ?_⟩
      rw [← List.append_assoc, hlength]
  · rintro ⟨prefixes, body, rfl, hprefixes, hlock, haddress, hlegal, hfollows, rfl⟩
    refine ⟨_, _, ⟨rfl, rfl⟩, _, body.bytes ++ rest, ⟨prefixes, List.append_assoc _ _ _, hprefixes,
      bytes_eq_cons mode body rest, rfl⟩, ?_⟩
    rw [(refusesRun_ofBytes_iff mode prefixes).mpr ⟨hlock, haddress⟩, if_neg Bool.false_ne_true,
      readBody_eq_ok_iff hlock]
    refine ⟨body, hlegal, hfollows, rfl, ?_⟩
    rw [hlength]

/-- Decoding succeeds on the encodings of the grammar, whatever follows them, and on nothing else. -/
theorem decode_eq_ok_iff (mode : Mode) (bytes : List Byte) (i : Instruction) :
    decode mode bytes = .ok i ↔
      ∃ prefixes body rest, bytes = prefixes ++ body.bytes ++ rest ∧ body.Legal ∧
        Admits mode prefixes body ∧ i = describe mode prefixes body := by
  have hmap : decode mode bytes = .ok i ↔
      ∃ rest, (Instruction.read mode).runLimited bytes = .ok (i, rest) := by
    unfold decode
    cases (Instruction.read mode).runLimited bytes with
    | error error => simp [Except.map]
    | ok result =>
      obtain ⟨value, rest⟩ := result
      simp [Except.map]
  simp only [hmap, Reader.runLimited_eq_ok_iff, read_eq_ok_iff]
  constructor
  · rintro ⟨rest, prefixes, body, hbytes, hprefixes, hlock, haddress, hlegal, hfollows, rfl⟩
    have hlength : prefixes.length + body.bytes.length ≤ 15 := by
      have htake := congrArg List.length hbytes
      rw [List.length_take, List.length_append, List.length_append] at htake
      have hle := Nat.min_le_left maxInstructionLength bytes.length
      rw [maxInstructionLength] at hle htake
      omega
    refine ⟨prefixes, body, rest ++ bytes.drop maxInstructionLength, ?_, hlegal,
      ⟨hprefixes, hlock, haddress, hfollows, hlength⟩, rfl⟩
    rw [← List.append_assoc, ← hbytes, List.take_append_drop]
  · rintro ⟨prefixes, body, rest, rfl, hlegal, hadmits, rfl⟩
    refine ⟨rest.take (maxInstructionLength - (prefixes ++ body.bytes).length), prefixes, body, ?_,
      hadmits.isPrefix, hadmits.lock, hadmits.addressSize, hlegal, hadmits.follows, rfl⟩
    rw [List.take_append, List.take_of_length_le]
    rw [List.length_append]
    exact hadmits.length_le

/-- Decoding a legal body after prefixes that admit it gives what they mean, whatever follows.  The value of
the displacement is what its bytes in the body spell in two's complement. -/
theorem decode_append_encoding {mode : Mode} {prefixes : List Byte} {body : Body}
    (hlegal : body.Legal) (hadmits : Admits mode prefixes body) (rest : List Byte) :
    decode mode (prefixes ++ body.bytes ++ rest) = .ok (describe mode prefixes body) ∧
      (describe mode prefixes body).displacement.map Displacement.value =
        body.operands.displacement.map
          fun d ↦ Reference.signed (8 * d.bytes.length) (decodeLE d.bytes) := by
  constructor
  · rw [decode_eq_ok_iff]
    exact ⟨prefixes, body, rest, rfl, hlegal, hadmits, rfl⟩
  · exact Option.map_congr fun d _ ↦ d.value_eq_signed

/-- A string comparison with a scaled index and a one-byte displacement. -/
def scaledCompareBody : Body where
  vex := none
  map := .map0F3A
  opcode := 0x63
  operands := ⟨⟨1, 2, 4⟩, some ⟨3, 1, 5⟩, some (.disp8 0x80)⟩
  immediate := some 0x0C

/-- The first REX byte does not count, the second one does, and so does the override of GS. -/
theorem decode_append_scaledCompare :
    scaledCompareBody.Legal ∧
      Admits .bits64 [0x48, 0x66, 0x65, 0x2E, 0x67, 0x4C] scaledCompareBody ∧
      decode .bits64
          ([0x48, 0x66, 0x65, 0x2E, 0x67, 0x4C] ++ scaledCompareBody.bytes ++ [0xFF]) =
        .ok
          { mode := .bits64, vex := none, extension := { r := true, w := true }, vvvv := 0
            mandatory := .p66, map := .map0F3A, opcode := 0x63, modrm := ⟨1, 2, 4⟩
            sib := some ⟨3, 1, 5⟩, displacement := some (.disp8 0x80), immediate := some 0x0C
            segment := some .gs, addressSizeOverride := true, family := .stringCompare
            length := 13 } ∧
      scaledCompareBody.operands.displacement.map Displacement.value = some (-128) := by
  have hlegal : scaledCompareBody.Legal := by
    refine ⟨.inr (.inr ⟨rfl, rfl, by decide⟩), ⟨⟨by decide, by decide, by decide⟩, by decide, ?_, ?_, ?_⟩,
      by decide⟩
    · rintro s ⟨⟩
      exact ⟨by decide, by decide, by decide⟩
    · simp [scaledCompareBody]
    · simp [scaledCompareBody]
  have hadmits : Admits .bits64 [0x48, 0x66, 0x65, 0x2E, 0x67, 0x4C] scaledCompareBody := by
    refine ⟨by decide, by decide, by rintro ⟨⟩, ⟨by rintro ⟨⟩, by rintro ⟨⟩⟩, by decide⟩
  obtain ⟨hdecode, hvalue⟩ := decode_append_encoding hlegal hadmits [0xFF]
  exact ⟨hlegal, hadmits, hdecode, hvalue.trans (by decide)⟩

end TrapEmulation
