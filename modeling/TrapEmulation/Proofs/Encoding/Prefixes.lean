import TrapEmulation.Decode.PrefixRun

/-!
# Prefix runs as they are written

A prefix run is any list of prefix bytes, and what it amounts to is said here by looking at the list
as a whole: which bytes occur in it, which of a kind comes last, and which byte ends it.  Scanning
byte by byte gives the same summary, and it stops at the first byte that is no prefix.
-/

namespace TrapEmulation

/-- A byte that carries extension bits, which exists in 64-bit code only. -/
def IsRex (mode : Mode) (byte : Byte) : Prop := mode = .bits64 ∧ 0x40 ≤ byte ∧ byte ≤ 0x4F

/-- A byte that may stand in a prefix run. -/
def IsPrefix (mode : Mode) (byte : Byte) : Prop :=
  byte ∈ [0x26, 0x2E, 0x36, 0x3E, 0x64, 0x65, 0x66, 0x67, 0xF0, 0xF2, 0xF3] ∨ IsRex mode byte

instance (mode : Mode) (byte : Byte) : Decidable (IsRex mode byte) :=
  inferInstanceAs (Decidable (_ ∧ _))

instance (mode : Mode) (byte : Byte) : Decidable (IsPrefix mode byte) :=
  inferInstanceAs (Decidable (_ ∨ _))

/-- The segment that a byte selects: any of six in 32-bit code, FS or GS alone in 64-bit code. -/
def selectedSegment? : Mode → Byte → Option Segment
  | _, 0x64 => some .fs
  | _, 0x65 => some .gs
  | .bits32, 0x26 => some .es
  | .bits32, 0x2E => some .cs
  | .bits32, 0x36 => some .ss
  | .bits32, 0x3E => some .ds
  | _, _ => none

/-- The mandatory prefix that a repeat byte stands for. -/
def repeatPrefix? : Byte → Option MandatoryPrefix
  | 0xF2 => some .pF2
  | 0xF3 => some .pF3
  | _ => none

/-- What the last byte that means something to `meaning?` means. -/
def lastMeaning {α : Type} (meaning? : Byte → Option α) (bytes : List Byte) : Option α :=
  (bytes.filterMap meaning?).getLast?

theorem lastMeaning_concat {α : Type} (meaning? : Byte → Option α) (bytes : List Byte)
    (byte : Byte) :
    lastMeaning meaning? (bytes ++ [byte]) = (meaning? byte).or (lastMeaning meaning? bytes) := by
  unfold lastMeaning
  rw [List.filterMap_append]
  cases hbyte : meaning? byte with
  | none => simp [hbyte]
  | some meaning => simp [hbyte]

namespace PrefixRun

/-- What a list of prefix bytes amounts to. -/
def ofBytes (mode : Mode) (bytes : List Byte) : PrefixRun where
  operandSize := bytes.contains 0x66
  addressSize := bytes.contains 0x67
  lock := bytes.contains 0xF0
  rep := lastMeaning repeatPrefix? bytes
  segment := lastMeaning (selectedSegment? mode) bytes
  rex := bytes.getLast?.filter (IsRex mode)

theorem ofBytes_nil (mode : Mode) : ofBytes mode [] = {} := rfl

/-- The summary of a run with one more byte. -/
theorem ofBytes_concat (mode : Mode) (bytes : List Byte) (byte : Byte) :
    ofBytes mode (bytes ++ [byte]) =
      { operandSize := bytes.contains 0x66 || byte == 0x66
        addressSize := bytes.contains 0x67 || byte == 0x67
        lock := bytes.contains 0xF0 || byte == 0xF0
        rep := (repeatPrefix? byte).or (lastMeaning repeatPrefix? bytes)
        segment := (selectedSegment? mode byte).or (lastMeaning (selectedSegment? mode) bytes)
        rex := if IsRex mode byte then some byte else none } := by
  have hcontains (wanted : Byte) :
      (bytes ++ [byte]).contains wanted = (bytes.contains wanted || byte == wanted) := by
    rw [List.contains_append, List.contains_cons, List.contains_nil, Bool.or_false,
      BEq.comm (a := wanted)]
  unfold ofBytes
  simp only [hcontains, lastMeaning_concat, List.getLast?_concat, Option.filter_some,
    decide_eq_true_eq]

end PrefixRun

/-! ## One more byte -/

theorem ofByte?_rex {mode : Mode} {byte : Byte} (h : IsRex mode byte) :
    PrefixByte.ofByte? mode byte = some (.rex byte) := by
  obtain ⟨rfl, hlow, hhigh⟩ := h
  revert hlow hhigh
  revert byte
  decide

/-- A REX byte asks for nothing but its extension bits. -/
theorem IsRex.meaningless {mode : Mode} {byte : Byte} (h : IsRex mode byte) :
    byte ≠ 0x66 ∧ byte ≠ 0x67 ∧ byte ≠ 0xF0 ∧ repeatPrefix? byte = none ∧
      selectedSegment? mode byte = none := by
  obtain ⟨rfl, hlow, hhigh⟩ := h
  revert hlow hhigh
  revert byte
  decide

theorem isSome_ofByte? (mode : Mode) (byte : Byte) :
    (PrefixByte.ofByte? mode byte).isSome ↔ IsPrefix mode byte := by
  cases mode <;> revert byte <;> decide

/-- Absorbing a prefix byte summarises the run with that byte at its end. -/
theorem absorb_ofBytes {mode : Mode} {byte : Byte} (bytes : List Byte) {meaning : PrefixByte}
    (h : PrefixByte.ofByte? mode byte = some meaning) :
    (PrefixRun.ofBytes mode bytes).absorb mode meaning =
      PrefixRun.ofBytes mode (bytes ++ [byte]) := by
  rw [PrefixRun.ofBytes_concat]
  have hprefix : IsPrefix mode byte := by
    rw [← isSome_ofByte?, h]
    rfl
  rcases hprefix with hlisted | hrex
  · simp only [List.mem_cons, List.not_mem_nil, or_false] at hlisted
    rcases hlisted with rfl | rfl | rfl | rfl | rfl | rfl | rfl | rfl | rfl | rfl | rfl <;>
      cases mode <;> cases h <;>
      simp [PrefixRun.ofBytes, PrefixRun.absorb, IsRex, PrefixRun.honours, selectedSegment?,
        repeatPrefix?]
  · rw [ofByte?_rex hrex] at h
    cases h
    obtain ⟨h66, h67, hF0, hrepeat, hsegment⟩ := hrex.meaningless
    simp only [PrefixRun.ofBytes, PrefixRun.absorb, hrepeat, hsegment, Option.none_or, if_pos hrex,
      beq_false_of_ne h66, beq_false_of_ne h67, beq_false_of_ne hF0, Bool.or_false]

/-! ## Scanning -/

/-- Scanning passes over prefix bytes and keeps the summary of those it has passed. -/
theorem scan_append {mode : Mode} (passed prefixes rest : List Byte)
    (hprefixes : ∀ byte ∈ prefixes, IsPrefix mode byte) :
    PrefixRun.scan mode (.ofBytes mode passed) (prefixes ++ rest) =
      PrefixRun.scan mode (.ofBytes mode (passed ++ prefixes)) rest := by
  induction prefixes generalizing passed with
  | nil => simp
  | cons byte prefixes ih =>
    obtain ⟨hbyte, hrest⟩ := List.forall_mem_cons.mp hprefixes
    obtain ⟨meaning, hmeaning⟩ := Option.isSome_iff_exists.mp ((isSome_ofByte? mode byte).mpr hbyte)
    rw [List.cons_append, PrefixRun.scan]
    simp only [hmeaning]
    rw [absorb_ofBytes passed hmeaning, ih _ hrest, List.append_assoc, List.singleton_append]

/-- Scanning stops at a byte that is no prefix. -/
theorem scan_of_not_isPrefix {mode : Mode} (run : PrefixRun) {byte : Byte} (rest : List Byte)
    (hbyte : ¬ IsPrefix mode byte) :
    PrefixRun.scan mode run (byte :: rest) = .ok (run, byte :: rest) := by
  have hnone : PrefixByte.ofByte? mode byte = none := by
    rwa [← isSome_ofByte?, Bool.not_eq_true, Option.isSome_eq_false_iff, Option.isNone_iff_eq_none]
      at hbyte
  simp only [PrefixRun.scan, hnone]

theorem isPrefix_of_mem_takeWhile (mode : Mode) (bytes : List Byte) :
    ∀ byte ∈ bytes.takeWhile (IsPrefix mode), IsPrefix mode byte := by
  have hall := List.all_takeWhile (p := fun byte ↦ decide (IsPrefix mode byte)) (l := bytes)
  simpa only [List.all_eq_true, decide_eq_true_eq] using hall

theorem not_isPrefix_of_dropWhile_eq {mode : Mode} {bytes tail : List Byte} {byte : Byte}
    (hdrop : bytes.dropWhile (IsPrefix mode) = byte :: tail) : ¬ IsPrefix mode byte := by
  have hhead := List.head?_dropWhile_not (IsPrefix mode) bytes
  rw [hdrop] at hhead
  simpa using hhead

/-- Scanning takes the longest run of prefix bytes, and it wants another byte behind them. -/
theorem scan_eq (mode : Mode) (bytes : List Byte) :
    PrefixRun.scan mode {} bytes =
      match bytes.dropWhile (IsPrefix mode) with
      | [] => .error .exhausted
      | byte :: tail => .ok (.ofBytes mode (bytes.takeWhile (IsPrefix mode)), byte :: tail) := by
  have hpassed := scan_append [] _ (bytes.dropWhile (IsPrefix mode))
    (isPrefix_of_mem_takeWhile mode bytes)
  rw [List.takeWhile_append_dropWhile, PrefixRun.ofBytes_nil, List.nil_append] at hpassed
  rw [hpassed]
  cases hdrop : bytes.dropWhile (IsPrefix mode) with
  | nil => rfl
  | cons byte tail => exact scan_of_not_isPrefix _ _ (not_isPrefix_of_dropWhile_eq hdrop)

/-- A scan succeeds on a run of prefix bytes that some other byte follows. -/
theorem scan_eq_ok_iff (mode : Mode) (bytes rest : List Byte) (run : PrefixRun) :
    PrefixRun.scan mode {} bytes = .ok (run, rest) ↔
      ∃ prefixes, bytes = prefixes ++ rest ∧ (∀ byte ∈ prefixes, IsPrefix mode byte) ∧
        (∃ byte tail, rest = byte :: tail ∧ ¬ IsPrefix mode byte) ∧
        run = .ofBytes mode prefixes := by
  constructor
  · intro h
    rw [scan_eq] at h
    cases hdrop : bytes.dropWhile (IsPrefix mode) with
    | nil =>
      rw [hdrop] at h
      cases h
    | cons byte tail =>
      have hbytes : bytes = bytes.takeWhile (IsPrefix mode) ++ byte :: tail := by
        rw [← hdrop, List.takeWhile_append_dropWhile]
      have hstop : ∃ next last, byte :: tail = next :: last ∧ ¬ IsPrefix mode next :=
        ⟨byte, tail, rfl, not_isPrefix_of_dropWhile_eq hdrop⟩
      rw [hdrop] at h
      cases h
      exact ⟨_, hbytes, isPrefix_of_mem_takeWhile mode bytes, hstop, rfl⟩
  · rintro ⟨prefixes, rfl, hprefixes, ⟨byte, tail, rfl, hbyte⟩, rfl⟩
    rw [← PrefixRun.ofBytes_nil mode, scan_append [] _ _ hprefixes, scan_of_not_isPrefix _ _ hbyte,
      List.nil_append]

end TrapEmulation
