import TrapEmulation.Proofs.Checked.Decode

/-!
# How a prefix scan ends

The prefixes of an instruction are the longest run of prefix bytes that it opens with, as far as an instruction
can reach. A scan takes one turn for each of them and one more to see that the run is over, so it always ends,
and what it gives is the summary of that run.
-/

namespace TrapEmulation.Checked

/-- The longest run of prefix bytes at the front, within the length of an instruction. -/
def leadingPrefixes (mode : Mode) (bytes : List Byte) : List Byte :=
  (bytes.take maxInstructionLength).takeWhile (IsPrefix mode)

/-- What the leading prefixes amount to and how many they are, if a byte can be looked at behind them. -/
def openingRun (mode : Mode) (bytes : List Byte) : Except DecodeError (PrefixRun × Nat) :=
  let prefixes := leadingPrefixes mode bytes
  if prefixes.length = maxInstructionLength then
    .error .tooLong
  else if prefixes.length = bytes.length then
    .error .unexpectedEnd
  else
    .ok (.ofBytes mode prefixes, prefixes.length)

variable {mode : Mode} {bytes : List Byte}

theorem length_leadingPrefixes_le (mode : Mode) (bytes : List Byte) :
    (leadingPrefixes mode bytes).length ≤ maxInstructionLength :=
  Nat.le_trans (List.takeWhile_prefix _).length_le (List.length_take_le _ _)

theorem leadingPrefixes_append (mode : Mode) (bytes : List Byte) :
    leadingPrefixes mode bytes ++ (Decoder.window bytes).dropWhile (IsPrefix mode) =
      Decoder.window bytes :=
  List.takeWhile_append_dropWhile

/-- If prefixes are all that is in sight, the byte behind them is missing. -/
theorem openingRun_of_nil (hdrop : (Decoder.window bytes).dropWhile (IsPrefix mode) = []) :
    openingRun mode bytes = .error (Decoder.cause bytes .exhausted) := by
  have hlength := congrArg List.length (leadingPrefixes_append mode bytes)
  rw [hdrop, List.append_nil, Decoder.window, List.length_take] at hlength
  unfold openingRun Decoder.cause
  by_cases hshort : bytes.length < maxInstructionLength
  · rw [if_neg (by omega), if_pos (by omega), if_pos hshort]
  · rw [if_pos (by omega), if_neg hshort]

theorem openingRun_of_cons {byte : Byte} {tail : List Byte}
    (hdrop : (Decoder.window bytes).dropWhile (IsPrefix mode) = byte :: tail) :
    openingRun mode bytes =
      .ok (.ofBytes mode (leadingPrefixes mode bytes), (leadingPrefixes mode bytes).length) := by
  have hlength := congrArg List.length (leadingPrefixes_append mode bytes)
  rw [hdrop, List.length_append, List.length_cons, Decoder.window, List.length_take] at hlength
  unfold openingRun
  rw [if_neg (by omega), if_neg (by omega)]

/-- A reader that scans leaves what stands behind the prefixes. -/
theorem runLimited_scan (mode : Mode) (bytes : List Byte) :
    (PrefixRun.scan mode {}).runLimited bytes =
      (openingRun mode bytes).map fun (run, pos) ↦ (run, (Decoder.window bytes).drop pos) := by
  unfold Reader.runLimited
  rw [← Decoder.window, scan_eq]
  cases hdrop : (Decoder.window bytes).dropWhile (IsPrefix mode) with
  | nil =>
    rw [openingRun_of_nil hdrop, Decoder.cause]
    dsimp only
    split <;> rfl
  | cons byte tail =>
    have hrest : byte :: tail = (Decoder.window bytes).drop (leadingPrefixes mode bytes).length := by
      rw [← hdrop, ← leadingPrefixes_append mode bytes, List.drop_left, leadingPrefixes_append]
    rw [openingRun_of_cons hdrop]
    exact congrArg (fun rest ↦ Except.ok (PrefixRun.ofBytes mode (leadingPrefixes mode bytes), rest))
      hrest

namespace Decoder

/-- One turn passes over one prefix byte. -/
theorem runAt_scan_of_meaning {pos : Nat} {byte : Byte} {meaning : PrefixByte}
    (hbyte : ((window bytes).drop pos)[0]? = some byte)
    (hmeaning : PrefixByte.ofByte? mode byte = some meaning) (turns : Nat) (run : PrefixRun) :
    (scan mode (turns + 1) run).runAt ⟨bytes, pos⟩ =
      (scan mode turns (run.absorb mode meaning)).runAt ⟨bytes, pos + 1⟩ := by
  have hlt : pos < (window bytes).length := by
    rw [List.getElem?_drop] at hbyte
    exact (List.getElem?_eq_some_iff.mp hbyte).1
  rw [scan, runAt_bind_ok (peek_ok hbyte)]
  simp only [hmeaning]
  exact runAt_bind_ok (skip_ok hlt) _

/-- As many turns as there are prefix bytes pass over all of them and keep their summary. -/
theorem runAt_scan_append {passed prefixes rest : List Byte}
    (hwindow : window bytes = passed ++ (prefixes ++ rest))
    (hprefixes : ∀ byte ∈ prefixes, IsPrefix mode byte) (turns : Nat) :
    (scan mode (prefixes.length + turns) (.ofBytes mode passed)).runAt ⟨bytes, passed.length⟩ =
      (scan mode turns (.ofBytes mode (passed ++ prefixes))).runAt
        ⟨bytes, passed.length + prefixes.length⟩ := by
  induction prefixes generalizing passed with
  | nil => rw [List.append_nil, List.length_nil, Nat.zero_add, Nat.add_zero]
  | cons byte prefixes ih =>
    obtain ⟨hbyte, hrest⟩ := List.forall_mem_cons.mp hprefixes
    obtain ⟨meaning, hmeaning⟩ := Option.isSome_iff_exists.mp ((isSome_ofByte? mode byte).mpr hbyte)
    have hsight : ((window bytes).drop passed.length)[0]? = some byte := by
      rw [hwindow, List.drop_left]
      rfl
    have hnext : window bytes = (passed ++ [byte]) ++ (prefixes ++ rest) := by
      rw [hwindow, List.append_assoc]
      rfl
    have hturns : (byte :: prefixes).length + turns = (prefixes.length + turns) + 1 := by
      rw [List.length_cons]
      omega
    have hmore := ih hnext hrest
    rw [List.length_append, List.length_singleton] at hmore
    rw [hturns, runAt_scan_of_meaning hsight hmeaning, absorb_ofBytes passed hmeaning, hmore,
      List.append_assoc, List.singleton_append, List.length_cons, Nat.add_assoc, Nat.add_comm 1]

/-- The turn behind the prefixes ends the loop. -/
theorem runAt_scan_succ (mode : Mode) (bytes : List Byte) (turns : Nat) :
    let prefixes := leadingPrefixes mode bytes
    (scan mode (turns + 1) (.ofBytes mode prefixes)).runAt ⟨bytes, prefixes.length⟩ =
      pure ((openingRun mode bytes).map fun (run, pos) ↦ (run, ⟨bytes, pos⟩)) := by
  intro prefixes
  have hwindow := leadingPrefixes_append mode bytes
  cases hdrop : (window bytes).dropWhile (IsPrefix mode) with
  | nil =>
    have hend : prefixes.length + 0 = (window bytes).length := by
      rw [← hwindow, hdrop, List.append_nil, Nat.add_zero]
    rw [openingRun_of_nil hdrop, scan]
    exact runAt_bind_error (peek_error hend) _
  | cons byte tail =>
    have hsight : ((window bytes).drop prefixes.length)[0]? = some byte := by
      rw [← hwindow, hdrop, List.drop_left]
      rfl
    have hnone : PrefixByte.ofByte? mode byte = none := by
      have hbyte := not_isPrefix_of_dropWhile_eq hdrop
      rwa [← isSome_ofByte?, Bool.not_eq_true, Option.isSome_eq_false_iff, Option.isNone_iff_eq_none]
        at hbyte
    rw [openingRun_of_cons hdrop, scan, runAt_bind_ok (peek_ok hsight)]
    simp only [hnone]
    rfl

/-- The loop starts with as many turns on the leading prefixes, whether these are all of them or not. -/
theorem runAt_scan_add {passed : Nat} (hpassed : passed ≤ (leadingPrefixes mode bytes).length)
    (turns : Nat) :
    (scan mode (passed + turns) {}).runAt ⟨bytes, 0⟩ =
      (scan mode turns (.ofBytes mode ((leadingPrefixes mode bytes).take passed))).runAt
        ⟨bytes, passed⟩ := by
  have hwindow : window bytes = [] ++ ((leadingPrefixes mode bytes).take passed ++
      ((leadingPrefixes mode bytes).drop passed ++ (window bytes).dropWhile (IsPrefix mode))) := by
    rw [List.nil_append, ← List.append_assoc, List.take_append_drop, leadingPrefixes_append]
  have hprefixes : ∀ byte ∈ (leadingPrefixes mode bytes).take passed, IsPrefix mode byte :=
    fun byte hbyte ↦ isPrefix_of_mem_takeWhile mode (window bytes) byte (List.mem_of_mem_take hbyte)
  have hrun := runAt_scan_append hwindow hprefixes turns
  rwa [List.length_take, Nat.min_eq_left hpassed, List.length_nil, Nat.zero_add, List.nil_append,
    PrefixRun.ofBytes_nil] at hrun

/-- The turn behind the leading prefixes is the last one. -/
theorem runAt_scan (mode : Mode) (bytes : List Byte) (turns : Nat) :
    (scan mode turns {}).runAt ⟨bytes, 0⟩ =
      if (leadingPrefixes mode bytes).length < turns then
        pure ((openingRun mode bytes).map fun (run, pos) ↦ (run, ⟨bytes, pos⟩))
      else
        throw .endless := by
  by_cases hturns : (leadingPrefixes mode bytes).length < turns
  · obtain ⟨more, rfl⟩ := Nat.exists_eq_add_of_lt hturns
    rw [if_pos hturns, Nat.add_assoc, runAt_scan_add (Nat.le_refl _), List.take_length]
    exact runAt_scan_succ mode bytes more
  · rw [if_neg hturns, ← Nat.add_zero turns, runAt_scan_add (Nat.not_lt.mp hturns)]
    rfl

end Decoder

/-- A scan gives the summary of the leading prefixes and stops behind them. It fails only if there is no byte
to look at behind them: because they are as many as an instruction has bytes, or because the bytes end there.
The loop ends in the turn behind the last of them, so it has ended after sixteen turns whatever the bytes
are. -/
theorem scan_leadingPrefixes (mode : Mode) (bytes : List Byte) :
    let prefixes := leadingPrefixes mode bytes
    prefixes.length ≤ 15 ∧
      (PrefixRun.scan mode {}).runLimited bytes =
        (openingRun mode bytes).map (fun (run, pos) ↦ (run, (bytes.take 15).drop pos)) ∧
      ∀ turns, (Decoder.scan mode turns {}).runAt ⟨bytes, 0⟩ =
        if prefixes.length < turns then
          pure ((openingRun mode bytes).map fun (run, pos) ↦ (run, ⟨bytes, pos⟩))
        else
          throw .endless :=
  ⟨length_leadingPrefixes_le mode bytes, runLimited_scan mode bytes, Decoder.runAt_scan mode bytes⟩

/-- The override of CS leaves the one of FS standing, and the REX byte counts for nothing in front of another
prefix. -/
example : (PrefixRun.scan .bits64 {}).runLimited [0x64, 0x2E, 0x48, 0x66, 0x0F] =
    .ok ({ operandSize := true, segment := some .fs }, [0x0F]) := rfl

end TrapEmulation.Checked
