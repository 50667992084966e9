import TrapEmulation.Proofs.Checked.Words
import TrapEmulation.Proofs.Encoding.Stability

/-!
# Checked cursors

A decoder keeps the bytes whole and moves a position along them, instead of taking bytes off a list. It
never looks at a place past the longest instruction. A decoder that follows a reader gives the value that
the reader gives, stands where the reader's bytes are used up, and keeps to the rules.
-/

namespace TrapEmulation.Checked

/-- A position in the bytes of an instruction. -/
structure Cursor where
  bytes : List Byte
  pos : Nat

abbrev Decoder := StateT Cursor (ExceptT DecodeError Run)

namespace Decoder

variable {α β : Type}

def runAt (decoder : Decoder α) (cursor : Cursor) : Run (Except DecodeError (α × Cursor)) :=
  decoder cursor

/-- Computes without looking at the bytes. -/
def lift (x : Run α) : Decoder α := fun cursor ↦ ExceptT.mk do
  let value ← x
  return .ok (value, cursor)

def refuse : Decoder α := fun _ ↦ ExceptT.mk (pure (.error .notRecognized))

/-- The byte `ahead` places after the next one. -/
def peek (ahead : Nat) : Decoder Byte := fun cursor ↦ ExceptT.mk do
  let place ← add cursor.pos ahead
  if maxInstructionLength ≤ place then
    return .error .tooLong
  else
    match cursor.bytes[place]? with
    | some byte => return .ok (byte, cursor)
    | none => return .error .unexpectedEnd

/-- Moves past the next byte. -/
def skip : Decoder Unit := fun cursor ↦ ExceptT.mk do
  let pos ← add cursor.pos 1
  return .ok ((), { cursor with pos })

def next : Decoder Byte := do
  let byte ← peek 0
  skip
  return byte

def take : Nat → Decoder (List Byte)
  | 0 => return []
  | count + 1 => do
    let byte ← next
    let rest ← take count
    return byte :: rest

theorem runAt_bind_ok {decoder : Decoder α} {cursor after : Cursor} {value : α}
    (h : decoder.runAt cursor = pure (.ok (value, after))) (continuation : α → Decoder β) :
    (decoder >>= continuation).runAt cursor = (continuation value).runAt after := by
  change (decoder.runAt cursor >>= _) = _
  rw [h, pure_bind]
  rfl

theorem runAt_bind_error {decoder : Decoder α} {cursor : Cursor} {error : DecodeError}
    (h : decoder.runAt cursor = pure (.error error)) (continuation : α → Decoder β) :
    (decoder >>= continuation).runAt cursor = pure (.error error) := by
  change (decoder.runAt cursor >>= _) = _
  rw [h, pure_bind]
  rfl

/-! ## The bytes in sight -/

/-- The bytes that an instruction may have. -/
def window (bytes : List Byte) : List Byte := bytes.take maxInstructionLength

/-- Why a decoder fails where a reader stops. -/
def cause (bytes : List Byte) : Stop → DecodeError
  | .refused => .notRecognized
  | .exhausted => if bytes.length < maxInstructionLength then .unexpectedEnd else .tooLong

variable {bytes : List Byte}

theorem length_window_le (bytes : List Byte) : (window bytes).length ≤ maxInstructionLength :=
  List.length_take_le _ _

theorem peek_ok {pos ahead : Nat} {byte : Byte} (h : ((window bytes).drop pos)[ahead]? = some byte) :
    (peek ahead).runAt ⟨bytes, pos⟩ = pure (.ok (byte, ⟨bytes, pos⟩)) := by
  rw [List.getElem?_drop] at h
  obtain ⟨hlt, -⟩ := List.getElem?_eq_some_iff.mp h
  have hplace : pos + ahead < maxInstructionLength := Nat.lt_of_lt_of_le hlt (length_window_le bytes)
  have hsum : pos + ahead < 2 ^ 32 := Nat.lt_trans hplace (by decide)
  have hbyte : bytes[pos + ahead]? = some byte := by rwa [window, List.getElem?_take_of_lt hplace] at h
  change (add pos ahead >>= _) = _
  rw [add, guarded_eq hsum, pure_bind, if_neg (Nat.not_le_of_lt hplace), hbyte]

/-- The first place out of sight is either past the longest instruction or past the bytes. -/
theorem peek_error {pos ahead : Nat} (h : pos + ahead = (window bytes).length) :
    (peek ahead).runAt ⟨bytes, pos⟩ = pure (.error (cause bytes .exhausted)) := by
  have hle : pos + ahead ≤ maxInstructionLength := Nat.le_trans (Nat.le_of_eq h) (length_window_le bytes)
  have hsum : pos + ahead < 2 ^ 32 := Nat.lt_of_le_of_lt hle (by decide)
  rw [window, List.length_take] at h
  change (add pos ahead >>= _) = _
  rw [add, guarded_eq hsum, pure_bind, cause]
  by_cases hshort : bytes.length < maxInstructionLength
  · have hend : pos + ahead = bytes.length := by omega
    have hnone : bytes[bytes.length]? = none := List.getElem?_eq_none (Nat.le_refl _)
    rw [if_pos hshort, hend, if_neg (Nat.not_le_of_lt hshort), hnone]
  · have hlimit : maxInstructionLength ≤ pos + ahead := by omega
    rw [if_neg hshort, if_pos hlimit]

theorem skip_ok {pos : Nat} (h : pos < (window bytes).length) :
    skip.runAt ⟨bytes, pos⟩ = pure (.ok ((), ⟨bytes, pos + 1⟩)) := by
  have hle : pos + 1 ≤ maxInstructionLength := Nat.le_trans h (length_window_le bytes)
  have hsum : pos + 1 < 2 ^ 32 := Nat.lt_of_le_of_lt hle (by decide)
  change (add pos 1 >>= _) = _
  rw [add, guarded_eq hsum, pure_bind]

/-! ## Following a reader -/

/-- At a position the decoder gives what the reader gives on the bytes from there on, and fails where the
reader stops. -/
structure Follows (bytes : List Byte) (pos : Nat) (decoder : Decoder α) (reader : Reader α) : Prop where
  ok : ∀ {value rest}, reader ((window bytes).drop pos) = .ok (value, rest) →
    ∃ after ≤ (window bytes).length, rest = (window bytes).drop after ∧
      decoder.runAt ⟨bytes, pos⟩ = pure (.ok (value, ⟨bytes, after⟩))
  error : ∀ {stop}, reader ((window bytes).drop pos) = .error stop →
    decoder.runAt ⟨bytes, pos⟩ = pure (.error (cause bytes stop))

variable {pos : Nat}

/-- The second part has to follow only where the first part can end, and only for the values it gives. -/
theorem Follows.bind {decoder : Decoder α} {reader : Reader α} {next : α → Decoder β}
    {next' : α → Reader β} (hfirst : Follows bytes pos decoder reader)
    (hnext : ∀ {value after}, after ≤ (window bytes).length →
      reader ((window bytes).drop pos) = .ok (value, (window bytes).drop after) →
        Follows bytes after (next value) (next' value)) :
    Follows bytes pos (decoder >>= next) (reader >>= next') where
  ok := by
    intro value rest h
    obtain ⟨first, middle, htaken, hrest⟩ := (Reader.bind_eq_ok_iff _ _ _).mp h
    obtain ⟨after, hafter, rfl, hdecoder⟩ := hfirst.ok htaken
    rw [runAt_bind_ok hdecoder]
    exact (hnext hafter htaken).ok hrest
  error := by
    intro stop h
    rcases (Reader.bind_eq_error_iff _ _ _ _).mp h with hstop | ⟨first, middle, htaken, hstop⟩
    · exact runAt_bind_error (hfirst.error hstop) _
    · obtain ⟨after, hafter, rfl, hdecoder⟩ := hfirst.ok htaken
      rw [runAt_bind_ok hdecoder]
      exact (hnext hafter htaken).error hstop

theorem follows_pure (hpos : pos ≤ (window bytes).length) (value : α) :
    Follows bytes pos (pure value) (pure value) where
  ok := by
    intro found rest h
    obtain ⟨rfl, rfl⟩ := (Reader.pure_eq_ok_iff _ _).mp h
    exact ⟨pos, hpos, rfl, rfl⟩
  error := by
    intro stop h
    cases h

/-- A computation that breaks no rule may stand in front. -/
theorem Follows.lift {x : Run α} {value : α} {next : α → Decoder β} {reader : Reader β}
    (h : x = pure value) (hnext : Follows bytes pos (next value) reader) :
    Follows bytes pos (Decoder.lift x >>= next) reader := by
  have hlift : (Decoder.lift x).runAt ⟨bytes, pos⟩ = pure (.ok (value, ⟨bytes, pos⟩)) := by
    rw [h]
    rfl
  constructor
  · rw [runAt_bind_ok hlift]
    exact hnext.ok
  · rw [runAt_bind_ok hlift]
    exact hnext.error

theorem follows_refuse : Follows bytes pos (refuse : Decoder α) Reader.refuse where
  ok := by
    intro value rest h
    exact absurd h (Reader.refuse_ne_ok _)
  error := by
    intro stop h
    cases h
    rfl

/-- The byte looked at is in sight, or it is the first that is not. -/
theorem follows_peek {ahead : Nat} (hpos : pos + ahead ≤ (window bytes).length) :
    Follows bytes pos (peek ahead) (Reader.peek ahead) where
  ok := by
    intro byte rest h
    obtain ⟨hbyte, rfl⟩ := (Reader.peek_eq_ok_iff _ _).mp h
    exact ⟨pos, Nat.le_trans (Nat.le_add_right _ _) hpos, rfl, peek_ok hbyte⟩
  error := by
    intro stop h
    unfold Reader.peek at h
    split at h
    · cases h
    · rename_i hnone
      cases h
      rw [List.getElem?_drop, List.getElem?_eq_none_iff] at hnone
      exact peek_error (Nat.le_antisymm hpos hnone)

theorem follows_next (hpos : pos ≤ (window bytes).length) :
    Follows bytes pos next Reader.next where
  ok := by
    intro byte rest h
    have hcons := (Reader.next_eq_ok_iff _).mp h
    have hlt : pos < (window bytes).length := by
      rw [← Nat.not_le, ← List.drop_eq_nil_iff, hcons]
      exact List.cons_ne_nil _ _
    have hbyte : ((window bytes).drop pos)[0]? = some byte := by
      rw [hcons]
      rfl
    refine ⟨pos + 1, hlt, ?_, ?_⟩
    · rw [← List.tail_drop, hcons, List.tail_cons]
    · rw [next, runAt_bind_ok (peek_ok hbyte), runAt_bind_ok (skip_ok hlt)]
      rfl
  error := by
    intro stop h
    cases hrest : (window bytes).drop pos with
    | nil =>
      rw [hrest] at h
      cases h
      have hend : pos + 0 = (window bytes).length := Nat.le_antisymm hpos (List.drop_eq_nil_iff.mp hrest)
      exact runAt_bind_error (peek_error hend) _
    | cons byte rest =>
      rw [hrest] at h
      cases h

theorem follows_take (count : Nat) {pos : Nat} (hpos : pos ≤ (window bytes).length) :
    Follows bytes pos (take count) (Reader.take count) := by
  induction count generalizing pos with
  | zero => exact follows_pure hpos []
  | succ count ih =>
    exact (follows_next hpos).bind fun hnext _ ↦ (ih hnext).bind fun hrest _ ↦ follows_pure hrest _

end Decoder

end TrapEmulation.Checked
