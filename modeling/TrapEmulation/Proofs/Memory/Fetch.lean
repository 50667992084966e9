import TrapEmulation.Memory.UserMemory

/-!
# Fetching an instruction

`Serves` says that given bytes can be read one by one.  Fetching then begins with them, and it does not
matter what follows them or whether it can be read at all.
-/

namespace TrapEmulation.UserMemory

variable {σ : Type} [UserMemory σ]

/-- The bytes at `start`, `start + 1`, … under the address mask are the given ones.  Each is read in
the state that the read before it leaves. -/
def Serves (mask : Address) : σ → Address → List Byte → Prop
  | _, _, [] => True
  | memory, start, byte :: rest =>
    ∃ after, read memory (start &&& mask) 1 = (.ok #v[byte], after) ∧
      Serves mask after (start + 1) rest

/-- Once a byte has been read, fetching cannot fail any more. -/
theorem fetch_of_read {mask : Address} {memory after : σ} {start : Address} {byte : Byte}
    (hread : read memory (start &&& mask) 1 = (.ok #v[byte], after)) (count : Nat) :
    fetch mask memory start (count + 1) =
      match fetch mask after (start + 1) count with
      | (.ok rest, final) => (.ok (byte :: rest), final)
      | (.error _, final) => (.ok [byte], final) := by
  rw [fetch, hread]
  rfl

/-- Fetching begins with the bytes that can be read one after another. -/
theorem fetch_of_serves {mask : Address} {memory : σ} {start : Address} {byte : Byte}
    {bytes : List Byte} {count : Nat} (hserves : Serves mask memory start (byte :: bytes))
    (hcount : (byte :: bytes).length ≤ count) :
    ∃ rest after, fetch mask memory start count = (.ok (byte :: bytes ++ rest), after) := by
  induction bytes generalizing memory start byte count with
  | nil =>
    obtain ⟨after, hread, -⟩ := hserves
    obtain ⟨count, rfl⟩ := Nat.exists_eq_succ_of_ne_zero (Nat.ne_of_gt hcount)
    rw [fetch_of_read hread]
    cases fetch mask after (start + 1) count with
    | mk answer final =>
      cases answer with
      | ok rest => exact ⟨rest, final, rfl⟩
      | error fault => exact ⟨[], final, rfl⟩
  | cons next bytes ih =>
    obtain ⟨after, hread, hrest⟩ := hserves
    obtain ⟨count, rfl⟩ := Nat.exists_eq_succ_of_ne_zero (Nat.ne_of_gt (Nat.zero_lt_of_lt hcount))
    obtain ⟨rest, final, hfetch⟩ := ih hrest (Nat.le_of_succ_le_succ hcount)
    rw [fetch_of_read hread, hfetch]
    exact ⟨rest, final, rfl⟩

end TrapEmulation.UserMemory
