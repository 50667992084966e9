import TrapEmulation.Decode.Instruction
import TrapEmulation.Proofs.Checked.Cursor

/-!
# Checked decoding

The fields of an encoding are shifted out of its bytes by fixed amounts, and extension bits are taken only
from a byte of the range that REX bytes have. Decoding by a cursor follows reading part by part, so it
breaks no rule on any bytes whatever.
-/

namespace TrapEmulation.Checked

/-! ## Fields -/

def modrmOf (byte : Byte) : Run ModRm := do
  let md ← field byte 6 3
  let reg ← field byte 3 7
  return { md, reg, rm := byte &&& 7 }

def sibOf (byte : Byte) : Run Sib := do
  let scale ← field byte 6 3
  let index ← field byte 3 7
  return { scale, index, base := byte &&& 7 }

/-- The extra register of a VEX payload byte, stored inverted. -/
def vvvvOf (byte : Byte) : Run (BitVec 4) := do
  let bits ← field (~~~byte) 3 0xF
  return bits.setWidth 4

/-- The bits that a REX byte carries. It has to be one. -/
def extensionOf (byte : Byte) : Run Extension := do
  require (0x40 ≤ byte ∧ byte ≤ 0x4F)
  return .ofRex byte

theorem shift_six_and : ∀ byte : Byte, byte >>> 6 &&& (3 : Byte) = byte >>> 6 := by decide

theorem modrmOf_eq (byte : Byte) : modrmOf byte = pure (.ofByte byte) := by
  rw [modrmOf, field_eq _ _ (by decide), pure_bind, field_eq _ _ (by decide), pure_bind, shift_six_and]
  rfl

theorem sibOf_eq (byte : Byte) : sibOf byte = pure (.ofByte byte) := by
  rw [sibOf, field_eq _ _ (by decide), pure_bind, field_eq _ _ (by decide), pure_bind, shift_six_and]
  rfl

theorem vvvvOf_eq (byte : Byte) : vvvvOf byte = pure (Head.vvvvOf byte) := by
  have hbits : ∀ byte : Byte, ((~~~byte) >>> 3 &&& 0xF).setWidth 4 = Head.vvvvOf byte := by decide
  rw [vvvvOf, field_eq _ _ (by decide), pure_bind, hbits]

namespace Decoder

/-! ## Prefixes -/

/-- Reads prefixes for as long as there are any, at most `turns` of them. -/
def scan (mode : Mode) : (turns : Nat) → PrefixRun → Decoder PrefixRun
  | 0, _ => lift (throw .endless)
  | turns + 1, run => do
    let byte ← peek 0
    match PrefixByte.ofByte? mode byte with
    | some p => do
      skip
      scan mode turns (run.absorb mode p)
    | none => return run

theorem scan_eq_bind (mode : Mode) (run : PrefixRun) :
    PrefixRun.scan mode run = (do
      let byte ← Reader.peek 0
      match PrefixByte.ofByte? mode byte with
      | some p => do
        let _ ← Reader.next
        PrefixRun.scan mode (run.absorb mode p)
      | none => return run) := by
  funext bytes
  cases bytes with
  | nil => rfl
  | cons byte rest =>
    change PrefixRun.scan mode run (byte :: rest) = (match PrefixByte.ofByte? mode byte with
      | some p => do
        let _ ← Reader.next
        PrefixRun.scan mode (run.absorb mode p)
      | none => return run : Reader PrefixRun) (byte :: rest)
    rw [PrefixRun.scan]
    cases PrefixByte.ofByte? mode byte with
    | none => rfl
    | some p => rfl

variable {bytes : List Byte}

/-- A cursor stays where it is while it looks ahead. -/
theorem eq_of_peek {pos after ahead : Nat} {byte : Byte} (hpos : pos ≤ (window bytes).length)
    (hafter : after ≤ (window bytes).length)
    (h : Reader.peek ahead ((window bytes).drop pos) = .ok (byte, (window bytes).drop after)) :
    after = pos := by
  obtain ⟨-, hrest⟩ := (Reader.peek_eq_ok_iff _ _).mp h
  have hlength := congrArg List.length hrest
  rw [List.length_drop, List.length_drop] at hlength
  omega

theorem lt_of_peek {pos : Nat} {byte : Byte} {rest : List Byte}
    (h : Reader.peek 0 ((window bytes).drop pos) = .ok (byte, rest)) : pos < (window bytes).length := by
  obtain ⟨hbyte, -⟩ := (Reader.peek_eq_ok_iff _ _).mp h
  rw [List.getElem?_drop] at hbyte
  exact (List.getElem?_eq_some_iff.mp hbyte).1

/-- Behind a byte that has been looked at, skipping it is taking it. -/
theorem Follows.skip {β : Type} {pos : Nat} {next : Decoder β} {next' : Reader β}
    (hlt : pos < (window bytes).length) (h : Follows bytes (pos + 1) next next') :
    Follows bytes pos (Decoder.skip >>= fun _ ↦ next) (Reader.next >>= fun _ ↦ next') := by
  have hrest : (window bytes).drop pos = (window bytes)[pos] :: (window bytes).drop (pos + 1) :=
    List.drop_eq_getElem_cons hlt
  have hreader : (Reader.next >>= fun _ ↦ next') ((window bytes).drop pos) =
      next' ((window bytes).drop (pos + 1)) := by
    rw [hrest]
    rfl
  constructor
  · rw [hreader, runAt_bind_ok (skip_ok hlt)]
    exact h.ok
  · rw [hreader, runAt_bind_ok (skip_ok hlt)]
    exact h.error

/-- There are no more prefixes than bytes in sight. -/
theorem follows_scan (mode : Mode) {turns pos : Nat} (hpos : pos ≤ (window bytes).length)
    (hturns : (window bytes).length - pos < turns) (run : PrefixRun) :
    Follows bytes pos (scan mode turns run) (PrefixRun.scan mode run) := by
  induction turns generalizing pos run with
  | zero => exact absurd hturns (Nat.not_lt_zero _)
  | succ turns ih =>
    rw [scan, scan_eq_bind]
    refine (follows_peek hpos).bind fun {byte after} hafter hpeek ↦ ?_
    have hlt := lt_of_peek hpeek
    rw [eq_of_peek hpos hafter hpeek]
    cases PrefixByte.ofByte? mode byte with
    | none => exact follows_pure hpos run
    | some p => exact (ih hlt (by omega) _).skip hlt

/-! ## Heads -/

def startsVex (mode : Mode) : Decoder Bool := do
  let lead ← peek 0
  if lead = 0xC4 ∨ lead = 0xC5 then
    match mode with
    | .bits64 => return true
    | .bits32 => do
      let first ← peek 1
      return first &&& 0xC0 = 0xC0
  else
    return false

def twoByteHead (mode : Mode) (payload : Byte) : Run (Option Head) := do
  let vvvv ← vvvvOf payload
  if payload.getLsbD 2 then
    return none
  else
    return some <| Head.restrict mode
      { vex := some .twoByte
        extension := { r := !payload.getLsbD 7 }
        vvvv
        mandatory := .ofPp payload
        map := .map0F }

def threeByteHead (mode : Mode) (first second : Byte) : Run (Option Head) := do
  let vvvv ← vvvvOf second
  if second.getLsbD 2 then
    return none
  else
    return (OpcodeMap.ofSelector? first).map fun map ↦ Head.restrict mode
      { vex := some .threeByte
        extension :=
          { r := !first.getLsbD 7
            x := !first.getLsbD 6
            b := !first.getLsbD 5
            w := second.getLsbD 7 }
        vvvv
        mandatory := .ofPp second
        map := map }

def orRefuse : Option Head → Decoder Head
  | some head => pure head
  | none => refuse

def readVex (mode : Mode) : Decoder Head := do
  let lead ← next
  let first ← next
  if lead = 0xC5 then
    let head ← lift (twoByteHead mode first)
    orRefuse head
  else
    let second ← next
    let head ← lift (threeByteHead mode first second)
    orRefuse head

/-- The head of a legacy encoding. -/
def headOfRun (run : PrefixRun) (map : OpcodeMap) : Run Head := do
  let extension ← run.rex.elim (pure {}) extensionOf
  return { vex := none, extension, vvvv := 0, mandatory := run.mandatory, map }

def readLegacy (run : PrefixRun) : Decoder Head := do
  let lead ← next
  if lead ≠ 0x0F then
    refuse
  else
    let escape ← peek 0
    if escape = 0x38 then
      skip
      lift (headOfRun run .map0F38)
    else if escape = 0x3A then
      skip
      lift (headOfRun run .map0F3A)
    else
      lift (headOfRun run .map0F)

def readHead (mode : Mode) (run : PrefixRun) : Decoder Head := do
  let vex ← startsVex mode
  if vex then
    if run.conflictsWithVex then refuse else readVex mode
  else
    readLegacy run

/-- A REX byte that is still in force is in the range of REX bytes. -/
def RexFits (run : PrefixRun) : Prop := ∀ byte ∈ run.rex, 0x40 ≤ byte ∧ byte ≤ 0x4F

theorem rexFits_of_scan {mode : Mode} {start rest : List Byte} {run : PrefixRun}
    (h : PrefixRun.scan mode {} start = .ok (run, rest)) : RexFits run := by
  obtain ⟨prefixes, -, -, -, rfl⟩ := (scan_eq_ok_iff _ _ _ _).mp h
  intro byte hbyte
  have hrex : IsRex mode byte := by
    have hkept := (Option.filter_eq_some_iff.mp hbyte).2
    exact of_decide_eq_true hkept
  exact hrex.2

theorem headOfRun_eq {run : PrefixRun} (h : RexFits run) (map : OpcodeMap) :
    headOfRun run map = pure (.ofRun run map) := by
  unfold headOfRun Head.ofRun
  cases hrex : run.rex with
  | none => rfl
  | some byte =>
    rw [Option.elim_some, extensionOf, require, guarded_eq (h byte hrex), pure_bind, pure_bind]
    rfl

theorem twoByteHead_eq (mode : Mode) (payload : Byte) :
    twoByteHead mode payload = pure (Head.ofTwoByte mode payload) := by
  rw [twoByteHead, vvvvOf_eq, pure_bind, Head.ofTwoByte]
  split <;> rfl

theorem threeByteHead_eq (mode : Mode) (first second : Byte) :
    threeByteHead mode first second = pure (Head.ofThreeByte mode first second) := by
  rw [threeByteHead, vvvvOf_eq, pure_bind, Head.ofThreeByte]
  split <;> rfl

variable {pos : Nat}

theorem follows_startsVex (mode : Mode) (hpos : pos ≤ (window bytes).length) :
    Follows bytes pos (startsVex mode) (Head.startsVex mode) := by
  refine (follows_peek hpos).bind fun {lead after} hafter hpeek ↦ ?_
  have hlt := lt_of_peek hpeek
  rw [eq_of_peek hpos hafter hpeek]
  by_cases hvex : lead = 0xC4 ∨ lead = 0xC5
  · rw [if_pos hvex, if_pos hvex]
    cases mode with
    | bits64 => exact follows_pure hpos true
    | bits32 => exact (follows_peek hlt).bind fun hfirst _ ↦ follows_pure hfirst _
  · rw [if_neg hvex, if_neg hvex]
    exact follows_pure hpos false

theorem follows_orRefuse (hpos : pos ≤ (window bytes).length) (head : Option Head) :
    Follows bytes pos (orRefuse head) (Head.orRefuse head) := by
  cases head with
  | none => exact follows_refuse
  | some head => exact follows_pure hpos head

theorem follows_readVex (mode : Mode) (hpos : pos ≤ (window bytes).length) :
    Follows bytes pos (readVex mode) (Head.readVex mode) := by
  refine (follows_next hpos).bind fun {lead _} hlead _ ↦ (follows_next hlead).bind fun hfirst _ ↦ ?_
  by_cases htwo : lead = 0xC5
  · rw [if_pos htwo, if_pos htwo]
    exact (follows_orRefuse hfirst _).lift (twoByteHead_eq _ _)
  · rw [if_neg htwo, if_neg htwo]
    exact (follows_next hfirst).bind fun hsecond _ ↦
      (follows_orRefuse hsecond _).lift (threeByteHead_eq _ _ _)

/-- A last computation that breaks no rule. -/
theorem follows_lift {α : Type} {x : Run α} {value : α} (h : x = pure value)
    (hpos : pos ≤ (window bytes).length) : Follows bytes pos (lift x) (pure value) := by
  rw [h]
  exact follows_pure hpos value

theorem follows_readLegacy {run : PrefixRun} (hrex : RexFits run)
    (hpos : pos ≤ (window bytes).length) :
    Follows bytes pos (readLegacy run) (Head.readLegacy run) := by
  refine (follows_next hpos).bind fun {lead _} hlead _ ↦ ?_
  by_cases hescape : lead ≠ 0x0F
  · rw [if_pos hescape, if_pos hescape]
    exact follows_refuse
  · rw [if_neg hescape, if_neg hescape]
    refine (follows_peek hlead).bind fun {escape _} hafter hpeek ↦ ?_
    have hlt := lt_of_peek hpeek
    rw [eq_of_peek hlead hafter hpeek]
    by_cases h38 : escape = 0x38
    · subst h38
      exact (follows_lift (headOfRun_eq hrex _) hlt).skip hlt
    by_cases h3A : escape = 0x3A
    · subst h3A
      exact (follows_lift (headOfRun_eq hrex _) hlt).skip hlt
    rw [if_neg h38, if_neg h3A]
    split
    · exact absurd rfl h38
    · exact absurd rfl h3A
    · exact follows_lift (headOfRun_eq hrex _) hlead

theorem follows_readHead (mode : Mode) {run : PrefixRun} (hrex : RexFits run)
    (hpos : pos ≤ (window bytes).length) :
    Follows bytes pos (readHead mode run) (Head.read mode run) := by
  refine (follows_startsVex mode hpos).bind fun {vex _} hhead _ ↦ ?_
  cases vex with
  | false => exact follows_readLegacy hrex hhead
  | true =>
    cases hconflict : run.conflictsWithVex with
    | true => exact follows_refuse
    | false => exact follows_readVex mode hhead

/-! ## Operands and the instruction -/

def readSib (m : ModRm) : Decoder (Option Sib) :=
  if OperandBytes.needsSib m then do
    let byte ← next
    let sib ← lift (sibOf byte)
    return some sib
  else
    return none

def readDisplacement (size : Nat) : Decoder (Option Displacement) :=
  match size with
  | 0 => return none
  | 1 => do
    let byte ← next
    return some (.disp8 byte)
  | size => do
    let taken ← take size
    return some (.disp32 (BitVec.ofNat 32 (decodeLE taken)))

def readOperands : Decoder OperandBytes := do
  let byte ← next
  let modrm ← lift (modrmOf byte)
  let sib ← readSib modrm
  let displacement ← readDisplacement (OperandBytes.displacementSize modrm sib)
  return { modrm, sib, displacement }

def readImmediate (map : OpcodeMap) : Decoder (Option Byte) :=
  match map with
  | .map0F3A => do
    let byte ← next
    return some byte
  | _ => return none

/-- Reads what follows the prefixes. The position at the end is the length, as a byte. -/
def readBody (mode : Mode) (run : PrefixRun) : Decoder Instruction := do
  let head ← readHead mode run
  let opcode ← next
  match Family.ofOpcode? head.vex.isSome head.map opcode with
  | none => refuse
  | some family =>
    let operands ← readOperands
    let immediate ← readImmediate head.map
    let cursor ← getThe Cursor
    return {
      mode
      vex := head.vex
      extension := head.extension
      vvvv := head.vvvv
      mandatory := head.mandatory
      map := head.map
      opcode
      modrm := operands.modrm
      sib := operands.sib
      displacement := operands.displacement
      immediate
      segment := run.segment
      addressSizeOverride := run.addressSize
      family
      length := cursor.pos % 256 }

def readInstruction (mode : Mode) : Decoder Instruction := do
  let run ← scan mode (maxInstructionLength + 1) {}
  if Instruction.refusesRun mode run then refuse else readBody mode run

theorem follows_readSib (m : ModRm) (hpos : pos ≤ (window bytes).length) :
    Follows bytes pos (readSib m) (OperandBytes.readSib m) := by
  unfold readSib OperandBytes.readSib
  split
  · exact (follows_next hpos).bind fun hbyte _ ↦ (follows_pure hbyte _).lift (sibOf_eq _)
  · exact follows_pure hpos none

theorem follows_readDisplacement (size : Nat) (hpos : pos ≤ (window bytes).length) :
    Follows bytes pos (readDisplacement size) (OperandBytes.readDisplacement size) := by
  rcases size with _ | _ | size
  · exact follows_pure hpos none
  · exact (follows_next hpos).bind fun hbyte _ ↦ follows_pure hbyte _
  · exact (follows_take (size + 2) hpos).bind fun htaken _ ↦ follows_pure htaken _

theorem follows_readOperands (hpos : pos ≤ (window bytes).length) :
    Follows bytes pos readOperands OperandBytes.read := by
  refine (follows_next hpos).bind fun hmodrm _ ↦ Follows.lift (modrmOf_eq _) ?_
  refine (follows_readSib _ hmodrm).bind fun hsib _ ↦ ?_
  exact (follows_readDisplacement _ hsib).bind fun hlast _ ↦ follows_pure hlast _

theorem follows_readImmediate (map : OpcodeMap) (hpos : pos ≤ (window bytes).length) :
    Follows bytes pos (readImmediate map) (Instruction.readImmediate map) := by
  cases map with
  | map0F => exact follows_pure hpos none
  | map0F38 => exact follows_pure hpos none
  | map0F3A => exact (follows_next hpos).bind fun hbyte _ ↦ follows_pure hbyte _

/-- The position counts the bytes that are gone, and they fit a byte. -/
theorem follows_length {α : Type} (value : Nat → α) (hpos : pos ≤ (window bytes).length) :
    Follows bytes pos (getThe Cursor >>= fun cursor ↦ pure (value (cursor.pos % 256)))
      (getThe (List Byte) >>= fun rest ↦ pure (value ((window bytes).length - rest.length))) := by
  have hbyte : pos < 256 :=
    Nat.lt_of_le_of_lt (Nat.le_trans hpos (length_window_le bytes)) (by decide)
  have hlength : (window bytes).length - ((window bytes).drop pos).length = pos % 256 := by
    rw [List.length_drop, Nat.mod_eq_of_lt hbyte]
    omega
  have hpure := follows_pure hpos (value (pos % 256))
  constructor
  · intro found rest h
    change Except.ok (value ((window bytes).length - ((window bytes).drop pos).length),
      (window bytes).drop pos) = _ at h
    rw [hlength] at h
    exact hpure.ok h
  · intro stop h
    cases h

theorem follows_readBody (mode : Mode) {run : PrefixRun} (hrex : RexFits run)
    (hpos : pos ≤ (window bytes).length) :
    Follows bytes pos (readBody mode run)
      (Instruction.readBody mode (window bytes).length run) := by
  refine (follows_readHead mode hrex hpos).bind fun {head _} hhead _ ↦ ?_
  refine (follows_next hhead).bind fun {opcode _} hopcode _ ↦ ?_
  cases Family.ofOpcode? head.vex.isSome head.map opcode with
  | none => exact follows_refuse
  | some family =>
    refine (follows_readOperands hopcode).bind fun hoperands _ ↦ ?_
    refine (follows_readImmediate head.map hoperands).bind fun hlast _ ↦ ?_
    exact follows_length _ hlast

theorem follows_readInstruction (mode : Mode) (bytes : List Byte) :
    Follows bytes 0 (readInstruction mode) (Instruction.read mode) := by
  have hturns : (window bytes).length - 0 < maxInstructionLength + 1 :=
    Nat.lt_succ_of_le (length_window_le bytes)
  have hread : Follows bytes 0 (readInstruction mode) (do
      let run ← PrefixRun.scan mode {}
      if Instruction.refusesRun mode run then Reader.refuse
      else Instruction.readBody mode (window bytes).length run) := by
    refine (follows_scan mode (Nat.zero_le _) hturns {}).bind fun {run _} hbody hscan ↦ ?_
    split
    · exact follows_refuse
    · exact follows_readBody mode (rexFits_of_scan hscan) hbody
  exact ⟨hread.ok, hread.error⟩

end Decoder

/-- Decodes the instruction at the front of `bytes`. -/
def decode (mode : Mode) (bytes : List Byte) : Run (Except DecodeError Instruction) := do
  let answer ← (Decoder.readInstruction mode).runAt ⟨bytes, 0⟩
  return answer.map Prod.fst

/-- Decoding breaks no rule and gives what reading gives. -/
theorem decode_eq_pure (mode : Mode) (bytes : List Byte) :
    decode mode bytes = pure (TrapEmulation.decode mode bytes) := by
  have hfollows := Decoder.follows_readInstruction mode bytes
  unfold decode TrapEmulation.decode Reader.runLimited
  cases hread : Instruction.read mode (bytes.take maxInstructionLength) with
  | ok result =>
    obtain ⟨value, rest⟩ := result
    obtain ⟨after, -, -, hdecoder⟩ := hfollows.ok hread
    rw [hdecoder, pure_bind]
    rfl
  | error stop =>
    rw [hfollows.error hread, pure_bind]
    cases stop with
    | refused => rfl
    | exhausted =>
      rw [Decoder.cause]
      split <;> rfl

end TrapEmulation.Checked
