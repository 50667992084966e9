import TrapEmulation.Decode.Reader

/-!
# What a reader takes

A reader that succeeds has taken some bytes from the front and left the rest.  Each law here says
exactly which bytes a reader takes for which value, so that a law about a whole instruction is put
together from laws about its parts, without opening the readers again.
-/

namespace TrapEmulation.Reader

variable {α β : Type} {bytes rest : List Byte}

/-- Two readers in a row succeed if the first does and the second does on what it left. -/
theorem bind_eq_ok_iff (reader : Reader α) (continuation : α → Reader β) (value : β) :
    (reader >>= continuation) bytes = .ok (value, rest) ↔
      ∃ first middle, reader bytes = .ok (first, middle) ∧
        continuation first middle = .ok (value, rest) := by
  change Except.bind (reader bytes) (fun result ↦ continuation result.1 result.2) = _ ↔ _
  cases hreader : reader bytes with
  | error stop => simp [Except.bind]
  | ok result =>
    obtain ⟨first, middle⟩ := result
    simp only [Except.bind, Except.ok.injEq, Prod.mk.injEq]
    constructor
    · intro h
      exact ⟨first, middle, ⟨rfl, rfl⟩, h⟩
    · intro h
      obtain ⟨_, _, ⟨rfl, rfl⟩, hcontinuation⟩ := h
      exact hcontinuation

theorem pure_eq_ok_iff (given value : α) :
    (pure given : Reader α) bytes = .ok (value, rest) ↔ value = given ∧ rest = bytes := by
  change Except.ok (given, bytes) = _ ↔ _
  rw [Except.ok.injEq, Prod.mk.injEq, eq_comm, eq_comm (a := bytes)]

theorem refuse_ne_ok (result : α × List Byte) : (refuse : Reader α) bytes ≠ .ok result := by
  intro h
  cases h

theorem get_eq_ok_iff (state : List Byte) :
    (get : Reader (List Byte)) bytes = .ok (state, rest) ↔ state = bytes ∧ rest = bytes := by
  change Except.ok (bytes, bytes) = _ ↔ _
  rw [Except.ok.injEq, Prod.mk.injEq, eq_comm, eq_comm (a := bytes)]

theorem next_eq_ok_iff (byte : Byte) :
    next bytes = .ok (byte, rest) ↔ bytes = byte :: rest := by
  cases bytes with
  | nil => simp [next]
  | cons head tail => simp [next]

/-- Peeking takes nothing, but the byte has to be there. -/
theorem peek_eq_ok_iff (ahead : Nat) (byte : Byte) :
    peek ahead bytes = .ok (byte, rest) ↔ bytes[ahead]? = some byte ∧ rest = bytes := by
  unfold peek
  cases bytes[ahead]? with
  | none => simp
  | some found => simp [eq_comm]

theorem take_eq_ok_iff (count : Nat) (taken : List Byte) :
    take count bytes = .ok (taken, rest) ↔ taken.length = count ∧ bytes = taken ++ rest := by
  induction count generalizing bytes taken rest with
  | zero =>
    rw [take, pure_eq_ok_iff, List.length_eq_zero_iff]
    apply and_congr_right
    intro hnil
    rw [hnil, List.nil_append]
    exact eq_comm
  | succ count ih =>
    simp only [take, bind_eq_ok_iff, pure_eq_ok_iff, next_eq_ok_iff, ih]
    constructor
    · rintro ⟨byte, middle, rfl, tail, last, ⟨hlength, rfl⟩, rfl, rfl⟩
      exact ⟨by rw [List.length_cons, hlength], rfl⟩
    · rintro ⟨hlength, rfl⟩
      obtain ⟨byte, tail, rfl⟩ := List.exists_cons_of_length_eq_add_one hlength
      exact ⟨byte, tail ++ rest, rfl, tail, rest, ⟨by simpa using hlength, rfl⟩, rfl, rfl⟩

/-- Under the length limit a reader succeeds as it does on the bytes within the limit. -/
theorem runLimited_eq_ok_iff (reader : Reader α) (value : α) :
    reader.runLimited bytes = .ok (value, rest) ↔
      reader (bytes.take maxInstructionLength) = .ok (value, rest) := by
  unfold runLimited
  cases hreader : reader (bytes.take maxInstructionLength) with
  | ok result => simp
  | error stop => cases stop with
    | refused => simp
    | exhausted => simp only [reduceCtorEq, iff_false]; split <;> simp

end TrapEmulation.Reader
