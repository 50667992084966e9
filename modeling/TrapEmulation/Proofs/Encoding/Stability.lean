import Mathlib.Tactic.ByContra
import TrapEmulation.Proofs.Encoding.RoundTrip

/-!
# Decoding looks no further than it has to

Bytes that stand behind others change nothing about what a reader takes from the others or refuses in
them.  They count only if the reader runs out of bytes.  So an answer other than a call for more bytes is
final, and every shorter piece of an instruction calls for more.
-/

namespace TrapEmulation

namespace Reader

variable {α β : Type} {tail : List Byte}

/-- With a tail behind its bytes `long` takes what `short` takes without it, and refuses what `short`
refuses.  Where `short` runs out of bytes nothing is said. -/
structure Extends (tail : List Byte) (short long : Reader α) : Prop where
  ok : ∀ {bytes value rest}, short bytes = .ok (value, rest) →
    long (bytes ++ tail) = .ok (value, rest ++ tail)
  refused : ∀ {bytes}, short bytes = .error .refused → long (bytes ++ tail) = .error .refused

/-- Two readers in a row stop where the first stops, or where the second stops on what it left. -/
theorem bind_eq_error_iff (reader : Reader α) (continuation : α → Reader β) (bytes : List Byte)
    (stop : Stop) :
    (reader >>= continuation) bytes = .error stop ↔
      reader bytes = .error stop ∨
        ∃ first middle, reader bytes = .ok (first, middle) ∧
          continuation first middle = .error stop := by
  change Except.bind (reader bytes) (fun result ↦ continuation result.1 result.2) = _ ↔ _
  cases hreader : reader bytes with
  | error found => simp [Except.bind]
  | ok result =>
    obtain ⟨first, middle⟩ := result
    simp only [Except.bind, reduceCtorEq, false_or, Except.ok.injEq, Prod.mk.injEq]
    constructor
    · intro h
      exact ⟨first, middle, ⟨rfl, rfl⟩, h⟩
    · intro h
      obtain ⟨_, _, ⟨rfl, rfl⟩, hcontinuation⟩ := h
      exact hcontinuation

theorem Extends.bind {short long : Reader α} {next next' : α → Reader β}
    (hfirst : Extends tail short long) (hnext : ∀ value, Extends tail (next value) (next' value)) :
    Extends tail (short >>= next) (long >>= next') where
  ok := by
    intro bytes value rest h
    obtain ⟨first, middle, htaken, hrest⟩ := (bind_eq_ok_iff _ _ _).mp h
    exact (bind_eq_ok_iff _ _ _).mpr ⟨first, _, hfirst.ok htaken, (hnext first).ok hrest⟩
  refused := by
    intro bytes h
    rw [bind_eq_error_iff]
    rcases (bind_eq_error_iff _ _ _ _).mp h with hrefused | ⟨first, middle, htaken, hrefused⟩
    · exact .inl (hfirst.refused hrefused)
    · exact .inr ⟨first, _, hfirst.ok htaken, (hnext first).refused hrefused⟩

theorem extends_pure (value : α) : Extends tail (pure value) (pure value) where
  ok := by
    intro bytes found rest h
    obtain ⟨rfl, rfl⟩ := (pure_eq_ok_iff _ _).mp h
    rfl
  refused := by
    intro bytes h
    cases h

theorem extends_refuse : Extends tail (refuse : Reader α) refuse where
  ok := by
    intro bytes value rest h
    exact absurd h (refuse_ne_ok _)
  refused := fun _ ↦ rfl

theorem extends_next : Extends tail next next where
  ok := by
    intro bytes value rest h
    rw [next_eq_ok_iff] at h ⊢
    rw [h, List.cons_append]
  refused := by
    intro bytes h
    cases bytes with
    | nil => cases h
    | cons byte bytes => cases h

theorem extends_peek (ahead : Nat) : Extends tail (peek ahead) (peek ahead) where
  ok := by
    intro bytes value rest h
    rw [peek_eq_ok_iff] at h ⊢
    obtain ⟨hbyte, rfl⟩ := h
    obtain ⟨hlt, -⟩ := List.getElem?_eq_some_iff.mp hbyte
    exact ⟨by rw [List.getElem?_append_left hlt, hbyte], rfl⟩
  refused := by
    intro bytes h
    unfold peek at h
    split at h <;> cases h

theorem extends_take (count : Nat) : Extends tail (take count) (take count) := by
  induction count with
  | zero => exact extends_pure []
  | succ count ih => exact extends_next.bind fun byte ↦ ih.bind fun rest ↦ extends_pure (byte :: rest)

/-- A value may be computed from the bytes that are left, if the tail makes no difference to it. -/
theorem extends_get {value value' : List Byte → α} (h : ∀ bytes, value' (bytes ++ tail) = value bytes) :
    Extends tail (get >>= fun bytes ↦ pure (value bytes)) (get >>= fun bytes ↦ pure (value' bytes)) where
  ok := by
    intro bytes found rest hfound
    obtain ⟨state, middle, hstate, hvalue⟩ := (bind_eq_ok_iff _ _ _).mp hfound
    obtain ⟨rfl, rfl⟩ := (get_eq_ok_iff _).mp hstate
    obtain ⟨rfl, rfl⟩ := (pure_eq_ok_iff _ _).mp hvalue
    change Except.ok (value' (rest ++ tail), rest ++ tail) = _
    rw [h]
  refused := by
    intro bytes hrefused
    cases hrefused

end Reader

open Reader

variable {tail : List Byte}

/-! ## The parts of an instruction -/

theorem extends_scan (mode : Mode) (run : PrefixRun) :
    Extends tail (PrefixRun.scan mode run) (PrefixRun.scan mode run) where
  ok := by
    intro bytes value rest h
    induction bytes generalizing run with
    | nil => cases h
    | cons byte bytes ih =>
      rw [List.cons_append]
      rw [PrefixRun.scan] at h ⊢
      cases hbyte : PrefixByte.ofByte? mode byte with
      | some meaning =>
        rw [hbyte] at h
        exact ih _ h
      | none =>
        rw [hbyte] at h
        cases h
        rfl
  refused := by
    intro bytes h
    induction bytes generalizing run with
    | nil => cases h
    | cons byte bytes ih =>
      rw [List.cons_append]
      rw [PrefixRun.scan] at h ⊢
      cases hbyte : PrefixByte.ofByte? mode byte with
      | some meaning =>
        rw [hbyte] at h
        exact ih _ h
      | none =>
        rw [hbyte] at h
        cases h

namespace Head

theorem extends_startsVex (mode : Mode) : Extends tail (startsVex mode) (startsVex mode) := by
  refine (extends_peek 0).bind fun lead ↦ ?_
  by_cases hvex : lead = 0xC4 ∨ lead = 0xC5
  · rw [if_pos hvex]
    cases mode with
    | bits64 => exact extends_pure true
    | bits32 => exact (extends_peek 1).bind fun first ↦ extends_pure _
  · rw [if_neg hvex]
    exact extends_pure false

theorem extends_orRefuse (head : Option Head) : Extends tail (orRefuse head) (orRefuse head) := by
  cases head with
  | none => exact extends_refuse
  | some head => exact extends_pure head

theorem extends_readVex (mode : Mode) : Extends tail (readVex mode) (readVex mode) := by
  refine extends_next.bind fun lead ↦ extends_next.bind fun first ↦ ?_
  by_cases hlead : lead = 0xC5
  · rw [if_pos hlead]
    exact extends_orRefuse _
  · rw [if_neg hlead]
    exact extends_next.bind fun second ↦ extends_orRefuse _

theorem extends_readLegacy (run : PrefixRun) : Extends tail (readLegacy run) (readLegacy run) := by
  refine extends_next.bind fun lead ↦ ?_
  by_cases hlead : lead ≠ 0x0F
  · rw [if_pos hlead]
    exact extends_refuse
  · rw [if_neg hlead]
    refine (extends_peek 0).bind fun escape ↦ ?_
    split
    · exact extends_next.bind fun _ ↦ extends_pure _
    · exact extends_next.bind fun _ ↦ extends_pure _
    · exact extends_pure _

theorem extends_read (mode : Mode) (run : PrefixRun) :
    Extends tail (Head.read mode run) (Head.read mode run) := by
  refine (extends_startsVex mode).bind fun vex ↦ ?_
  cases vex with
  | false => exact extends_readLegacy run
  | true =>
    cases hconflict : run.conflictsWithVex with
    | true => exact extends_refuse
    | false => exact extends_readVex mode

end Head

namespace OperandBytes

theorem extends_readSib (m : ModRm) : Extends tail (readSib m) (readSib m) := by
  unfold readSib
  by_cases hsib : needsSib m
  · rw [if_pos hsib]
    exact extends_next.bind fun byte ↦ extends_pure _
  · rw [if_neg hsib]
    exact extends_pure none

theorem extends_readDisplacement (size : Nat) :
    Extends tail (readDisplacement size) (readDisplacement size) := by
  unfold readDisplacement
  split
  · exact extends_pure none
  · exact extends_next.bind fun byte ↦ extends_pure _
  · exact (extends_take _).bind fun bytes ↦ extends_pure _

theorem extends_read : Extends tail OperandBytes.read OperandBytes.read :=
  extends_next.bind fun _ ↦ (extends_readSib _).bind fun _ ↦
    (extends_readDisplacement _).bind fun _ ↦ extends_pure _

end OperandBytes

namespace Instruction

theorem extends_readImmediate (map : OpcodeMap) :
    Extends tail (readImmediate map) (readImmediate map) := by
  cases map with
  | map0F => exact extends_pure none
  | map0F38 => exact extends_pure none
  | map0F3A => exact extends_next.bind fun byte ↦ extends_pure (some byte)

/-- The tail counts among the bytes at the start as among those at the end, so it does not count in the
length. -/
theorem extends_readBody (mode : Mode) (start : Nat) (run : PrefixRun) :
    Extends tail (readBody mode start run) (readBody mode (start + tail.length) run) := by
  refine (Head.extends_read mode run).bind fun head ↦ extends_next.bind fun opcode ↦ ?_
  cases Family.ofOpcode? head.vex.isSome head.map opcode with
  | none => exact extends_refuse
  | some family =>
    refine OperandBytes.extends_read.bind fun operands ↦
      (extends_readImmediate head.map).bind fun immediate ↦ extends_get fun rest ↦ ?_
    rw [List.length_append, Nat.add_sub_add_right]

/-- A whole instruction is read without a look at what stands behind it. -/
theorem extends_read (mode : Mode) : Extends tail (Instruction.read mode) (Instruction.read mode) := by
  have hread (start : Nat) :
      Extends tail
        (PrefixRun.scan mode {} >>= fun run ↦
          if refusesRun mode run then refuse else readBody mode start run)
        (PrefixRun.scan mode {} >>= fun run ↦
          if refusesRun mode run then refuse else readBody mode (start + tail.length) run) := by
    refine (extends_scan mode {}).bind fun run ↦ ?_
    cases refusesRun mode run with
    | true => exact extends_refuse
    | false => exact extends_readBody mode start run
  constructor
  · intro bytes value rest h
    have hextended := (hread bytes.length).ok h
    rw [← List.length_append] at hextended
    exact hextended
  · intro bytes h
    have hextended := (hread bytes.length).refused h
    rw [← List.length_append] at hextended
    exact hextended

end Instruction

/-! ## Decoding -/

/-- How decoding answers, by the way in which the reader ends on the first fifteen bytes. -/
theorem decode_eq (mode : Mode) (bytes : List Byte) :
    decode mode bytes =
      match Instruction.read mode (bytes.take maxInstructionLength) with
      | .ok (i, _) => .ok i
      | .error .refused => .error .notRecognized
      | .error .exhausted =>
        if bytes.length < maxInstructionLength then .error .unexpectedEnd else .error .tooLong := by
  unfold decode runLimited
  cases Instruction.read mode (bytes.take maxInstructionLength) with
  | ok result => rfl
  | error stop =>
    cases stop with
    | refused => rfl
    | exhausted =>
      by_cases hlength : bytes.length < maxInstructionLength
      · simp only [hlength, ↓reduceIte]
        rfl
      · simp only [hlength, ↓reduceIte]
        rfl

theorem decode_take (mode : Mode) (bytes : List Byte) :
    decode mode (bytes.take maxInstructionLength) = decode mode bytes := by
  have hlength : (bytes.take maxInstructionLength).length < maxInstructionLength ↔
      bytes.length < maxInstructionLength := by
    rw [List.length_take]
    omega
  rw [decode_eq, decode_eq mode bytes, List.take_take, Nat.min_self]
  simp only [hlength]

/-- An answer other than a call for more bytes stays when more bytes come. -/
theorem decode_append {mode : Mode} {bytes : List Byte}
    (h : decode mode bytes ≠ .error .unexpectedEnd) (tail : List Byte) :
    decode mode (bytes ++ tail) = decode mode bytes := by
  by_cases hlength : bytes.length < maxInstructionLength
  · have htake : (bytes ++ tail).take maxInstructionLength =
        bytes ++ tail.take (maxInstructionLength - bytes.length) := by
      rw [List.take_append, List.take_of_length_le (Nat.le_of_lt hlength)]
    rw [decode_eq, List.take_of_length_le (Nat.le_of_lt hlength)] at h
    rw [decode_eq, decode_eq mode bytes, htake, List.take_of_length_le (Nat.le_of_lt hlength)]
    cases hread : Instruction.read mode bytes with
    | ok result => rw [(Instruction.extends_read mode).ok hread]
    | error stop =>
      cases stop with
      | refused => rw [(Instruction.extends_read mode).refused hread]
      | exhausted =>
        rw [hread] at h
        exact absurd (if_pos hlength) h
  · rw [← decode_take, ← decode_take mode bytes, List.take_append_of_le_length (Nat.not_lt.mp hlength)]

theorem length_lt_of_decode {mode : Mode} {bytes : List Byte}
    (h : decode mode bytes = .error .unexpectedEnd) : bytes.length < maxInstructionLength := by
  rw [decode_eq] at h
  split at h
  · cases h
  · cases h
  · split at h
    · assumption
    · cases h

theorem le_length_of_decode {mode : Mode} {bytes : List Byte}
    (h : decode mode bytes = .error .tooLong) : maxInstructionLength ≤ bytes.length := by
  rw [decode_eq] at h
  split at h
  · cases h
  · cases h
  · split at h
    · cases h
    · next hlength => exact Nat.not_lt.mp hlength

/-- A decoded instruction is there as soon as its own bytes are. -/
theorem decode_take_length {mode : Mode} {bytes : List Byte} {i : Instruction}
    (h : decode mode bytes = .ok i) :
    i.length ≤ bytes.length ∧ decode mode (bytes.take i.length) = .ok i := by
  obtain ⟨prefixes, body, rest, rfl, hlegal, hadmits, rfl⟩ := (decode_eq_ok_iff mode bytes i).mp h
  have hlength : (describe mode prefixes body).length = (prefixes ++ body.bytes).length :=
    List.length_append.symm
  rw [hlength]
  constructor
  · exact (List.prefix_append _ rest).length_le
  · rw [List.take_left, decode_eq_ok_iff]
    exact ⟨prefixes, body, [], (List.append_nil _).symm, hlegal, hadmits, rfl⟩

/-- Decoding depends on the first fifteen bytes, and of these on no more than the instruction has.  Any
answer but a call for more bytes is kept by every longer string, and a call for more bytes by every shorter
one. -/
theorem decode_stable (mode : Mode) (bytes : List Byte) :
    decode mode bytes = decode mode (bytes.take 15) ∧
    (∀ i, decode mode bytes = .ok i →
      i.length ≤ bytes.length ∧
      (∀ tail, decode mode (bytes.take i.length ++ tail) = .ok i) ∧
      ∀ k < i.length, decode mode (bytes.take k) = .error .unexpectedEnd) ∧
    (∀ error, decode mode bytes = .error error → error = .notRecognized ∨ error = .tooLong →
      ∀ tail, decode mode (bytes ++ tail) = .error error) ∧
    (decode mode bytes = .error .tooLong → 15 ≤ bytes.length) ∧
    (decode mode bytes = .error .unexpectedEnd →
      bytes.length < 15 ∧ ∀ front, front <+: bytes → decode mode front = .error .unexpectedEnd) := by
  refine ⟨(decode_take mode bytes).symm, ?_, ?_, le_length_of_decode, ?_⟩
  · intro i hi
    obtain ⟨hle, htaken⟩ := decode_take_length hi
    refine ⟨hle, ?_, ?_⟩
    · intro tail
      rw [decode_append (by rw [htaken]; simp), htaken]
    · intro k hk
      -- Any other answer on fewer bytes would be the answer on all of them.
      by_contra hdecided
      have hwhole := decode_append hdecided (bytes.drop k)
      rw [List.take_append_drop, hi] at hwhole
      have hshort := (decode_take_length hwhole.symm).1
      rw [List.length_take] at hshort
      omega
  · intro error herror hfinal tail
    have hdecided : decode mode bytes ≠ .error .unexpectedEnd := by
      rw [herror]
      rcases hfinal with rfl | rfl <;> simp
    rw [decode_append hdecided, herror]
  · intro hend
    refine ⟨length_lt_of_decode hend, ?_⟩
    rintro front ⟨tail, rfl⟩
    by_contra hdecided
    rw [decode_append hdecided] at hend
    exact hdecided hend

/-- The last prefix that could still begin an instruction, and the first that cannot. -/
example (mode : Mode) :
    decode mode (List.replicate 14 0x66) = .error .unexpectedEnd ∧
      decode mode (List.replicate 15 0x66) = .error .tooLong := by
  cases mode <;> exact ⟨rfl, rfl⟩

end TrapEmulation
