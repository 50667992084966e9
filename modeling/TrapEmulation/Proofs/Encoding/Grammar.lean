import TrapEmulation.Decode.Instruction
import TrapEmulation.Proofs.Encoding.Heads
import TrapEmulation.Proofs.Encoding.Operands
import TrapEmulation.Proofs.Encoding.Prefixes

/-!
# The grammar of encodings

An encoding is a prefix run followed by a body: a VEX prefix or escape bytes, an opcode, operand
bytes and, in one opcode map, a byte of immediate data.  `Body.bytes` writes a body, `Body.Legal` and
`Admits` say which bodies there are and after which prefixes each may stand, and `describe` says what
such an encoding means, without any reference to how it is read.
-/

namespace TrapEmulation

/-- What follows the prefix run.  A body without VEX fields is a legacy encoding. -/
structure Body where
  vex : Option VexFields
  map : OpcodeMap
  opcode : Byte
  operands : OperandBytes
  immediate : Option Byte
  deriving DecidableEq, Repr

/-- The bytes in front of the opcode. -/
def headBytes (vex : Option VexFields) (map : OpcodeMap) : List Byte :=
  match vex with
  | some v => v.bytes map
  | none => map.escape

namespace Body

/-- The body as it is written. -/
def bytes (body : Body) : List Byte :=
  headBytes body.vex body.map ++
    body.opcode :: (body.operands.bytes ++ body.immediate.toList)

/-- The opcode is one that is recognized in this form. -/
def Recognized (body : Body) : Prop :=
  (body.vex.isSome ∧ body.map = .map0F38 ∧ body.opcode ∈ [0xF2, 0xF3, 0xF5, 0xF6, 0xF7]) ∨
    (body.vex.isSome ∧ body.map = .map0F3A ∧ body.opcode ∈ [0xF0, 0x60, 0x61, 0x62, 0x63]) ∨
    (body.vex = none ∧ body.map = .map0F3A ∧ body.opcode ∈ [0x60, 0x61, 0x62, 0x63])

/-- A recognized opcode with exactly the operand bytes and the immediate that it calls for. -/
structure Legal (body : Body) : Prop where
  recognized : body.Recognized
  operands : body.operands.WellFormed
  immediate : body.immediate.isSome ↔ body.map = .map0F3A

/-- The family of a recognized opcode. -/
def family (body : Body) : Family :=
  if [0x60, 0x61, 0x62, 0x63].contains body.opcode then .stringCompare else .bitManipulation

end Body

/-- The VEX prefix, if there is one, is taken for one after the given prefixes. -/
structure Follows (mode : Mode) (prefixes : List Byte) (vex : Option VexFields) : Prop where
  /-- No mandatory prefix and no REX byte may stand before a VEX prefix. -/
  before_vex : vex.isSome → 0x66 ∉ prefixes ∧ 0xF2 ∉ prefixes ∧ 0xF3 ∉ prefixes ∧
    ∀ byte ∈ prefixes.getLast?, ¬ IsRex mode byte
  /-- In 32-bit code the two top bits after the lead byte of a VEX prefix are set. -/
  top_bits : mode = .bits32 → ∀ v ∈ vex, v.r = false ∧ v.x = false

/-- The prefixes and the body make up an instruction that can be decoded. -/
structure Admits (mode : Mode) (prefixes : List Byte) (body : Body) : Prop where
  isPrefix : ∀ byte ∈ prefixes, IsPrefix mode byte
  lock : 0xF0 ∉ prefixes
  addressSize : mode = .bits32 → 0x67 ∉ prefixes
  follows : Follows mode prefixes body.vex
  length_le : prefixes.length + body.bytes.length ≤ 15

/-- The extension bits of a REX byte. -/
def rexBits (byte : Byte) : Extension where
  w := byte.getLsbD 3
  r := byte.getLsbD 2
  x := byte.getLsbD 1
  b := byte.getLsbD 0

/-- The extension bits of a legacy encoding, from a REX byte at the end of the prefixes. -/
def legacyExtension (mode : Mode) (prefixes : List Byte) : Extension :=
  match prefixes.getLast? with
  | some byte => if IsRex mode byte then rexBits byte else {}
  | none => {}

/-- The mandatory prefix of a legacy encoding: the last of F2 and F3, and 66 if there is none. -/
def legacyMandatory (prefixes : List Byte) : MandatoryPrefix :=
  match lastMeaning repeatPrefix? prefixes with
  | some p => p
  | none => if prefixes.contains 0x66 then .p66 else .absent

/-- What the prefixes and the body mean. -/
def describe (mode : Mode) (prefixes : List Byte) (body : Body) : Instruction where
  mode := mode
  vex := body.vex.map fun _ ↦ .threeByte
  extension :=
    match body.vex with
    | some v => v.extensionIn mode
    | none => legacyExtension mode prefixes
  vvvv :=
    match body.vex with
    | some v => v.vvvvIn mode
    | none => 0
  mandatory :=
    match body.vex with
    | some v => v.mandatory
    | none => legacyMandatory prefixes
  map := body.map
  opcode := body.opcode
  modrm := body.operands.modrm
  sib := body.operands.sib
  displacement := body.operands.displacement
  immediate := body.immediate
  segment := lastMeaning (selectedSegment? mode) prefixes
  addressSizeOverride := prefixes.contains 0x67
  family := body.family
  length := prefixes.length + body.bytes.length

/-! ## The summary of the prefixes -/

theorem lastMeaning_isSome_iff {α : Type} (meaning? : Byte → Option α) (bytes : List Byte) :
    (lastMeaning meaning? bytes).isSome ↔ ∃ byte ∈ bytes, (meaning? byte).isSome := by
  unfold lastMeaning
  rw [Option.isSome_iff_ne_none, ne_eq, List.getLast?_eq_none_iff, List.filterMap_eq_nil_iff]
  simp [Option.isSome_iff_ne_none]

theorem repeatPrefix?_isSome_iff : ∀ byte : Byte,
    (repeatPrefix? byte).isSome ↔ byte = 0xF2 ∨ byte = 0xF3 := by
  decide

theorem lastRepeat_eq_none_iff (bytes : List Byte) :
    lastMeaning repeatPrefix? bytes = none ↔ 0xF2 ∉ bytes ∧ 0xF3 ∉ bytes := by
  rw [← Option.not_isSome_iff_eq_none, lastMeaning_isSome_iff]
  simp only [repeatPrefix?_isSome_iff]
  constructor
  · intro h
    exact ⟨fun hmem ↦ h ⟨_, hmem, .inl rfl⟩, fun hmem ↦ h ⟨_, hmem, .inr rfl⟩⟩
  · intro h hexists
    obtain ⟨byte, hmem, hbyte⟩ := hexists
    rcases hbyte with rfl | rfl
    · exact h.1 hmem
    · exact h.2 hmem

/-- The prefixes conflict with VEX if one of the listed bytes occurs or a REX byte ends them. -/
theorem conflictsWithVex_ofBytes_iff (mode : Mode) (prefixes : List Byte) :
    (PrefixRun.ofBytes mode prefixes).conflictsWithVex = false ↔
      0x66 ∉ prefixes ∧ 0xF2 ∉ prefixes ∧ 0xF3 ∉ prefixes ∧ 0xF0 ∉ prefixes ∧
        ∀ byte ∈ prefixes.getLast?, ¬ IsRex mode byte := by
  have hrep : (lastMeaning repeatPrefix? prefixes).isSome = false ↔
      0xF2 ∉ prefixes ∧ 0xF3 ∉ prefixes := by
    rw [Option.isSome_eq_false_iff, Option.isNone_iff_eq_none, lastRepeat_eq_none_iff]
  have hrex : (prefixes.getLast?.filter (IsRex mode)).isSome = false ↔
      ∀ byte ∈ prefixes.getLast?, ¬ IsRex mode byte := by
    rw [Option.isSome_eq_false_iff, Option.isNone_iff_eq_none, Option.filter_eq_none_iff]
    simp
  simp only [PrefixRun.conflictsWithVex, PrefixRun.ofBytes, Bool.or_eq_false_iff, hrep, hrex,
    List.contains_eq_mem, decide_eq_false_iff_not, and_assoc]

theorem lock_ofBytes (mode : Mode) (prefixes : List Byte) :
    (PrefixRun.ofBytes mode prefixes).lock = decide (0xF0 ∈ prefixes) :=
  List.contains_eq_mem _ _

theorem addressSize_ofBytes (mode : Mode) (prefixes : List Byte) :
    (PrefixRun.ofBytes mode prefixes).addressSize = decide (0x67 ∈ prefixes) :=
  List.contains_eq_mem _ _

theorem mandatory_ofBytes (mode : Mode) (prefixes : List Byte) :
    (PrefixRun.ofBytes mode prefixes).mandatory = legacyMandatory prefixes := by
  unfold PrefixRun.mandatory legacyMandatory PrefixRun.ofBytes
  cases lastMeaning repeatPrefix? prefixes <;> simp

theorem rex_ofBytes (mode : Mode) (prefixes : List Byte) :
    ((PrefixRun.ofBytes mode prefixes).rex.map Extension.ofRex).getD {} =
      legacyExtension mode prefixes := by
  unfold legacyExtension PrefixRun.ofBytes
  cases prefixes.getLast? with
  | none => rfl
  | some byte =>
    by_cases hrex : IsRex mode byte
    · simp only [Option.filter_some, hrex, decide_true, ↓reduceIte]
      rfl
    · simp only [Option.filter_some, hrex, decide_false, Bool.false_eq_true, ↓reduceIte]
      rfl

end TrapEmulation
