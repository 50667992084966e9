import Mathlib.Algebra.Group.Nat.Defs
import TrapEmulation.LowMask

/-!
# Checked arithmetic

Machine arithmetic has rules: the amount of a shift stays below the width, an index within its array,
a difference of counters does not fall below zero. A `Run` keeps to them and stops at the first that is
broken. So an equation that gives the result of a run also says that every rule was kept on the way.
-/

namespace TrapEmulation.Checked

/-- What a broken rule was about. The last is that a loop has to end. -/
inductive Violation where
  | assertion
  | shift
  | index
  | overflow
  | underflow
  | division
  | endless
  deriving DecidableEq, Repr

/-- A computation that stops at the first rule it breaks. -/
abbrev Run := Except Violation

variable {α β : Type} {w n : Nat}

/-- The value, if the rule about it is kept. -/
def guarded (violation : Violation) (kept : Prop) [Decidable kept] (value : α) : Run α :=
  if kept then pure value else throw violation

theorem guarded_eq {violation : Violation} {kept : Prop} [Decidable kept] (h : kept) (value : α) :
    guarded violation kept value = pure value := if_pos h

/-! ## Assertions, words and counters -/

/-- Goes on only if the condition holds. -/
def require (condition : Prop) [Decidable condition] : Run Unit := guarded .assertion condition ()

def shiftLeft (x : BitVec w) (amount : Nat) : Run (BitVec w) :=
  guarded .shift (amount < w) (x <<< amount)

def shiftRight (x : BitVec w) (amount : Nat) : Run (BitVec w) :=
  guarded .shift (amount < w) (x >>> amount)

/-- Shifts right and fills with the sign bit. -/
def shiftRightSigned (x : BitVec w) (amount : Nat) : Run (BitVec w) :=
  guarded .shift (amount < w) (x.sshiftRight amount)

def subWord (x y : BitVec w) : Run (BitVec w) := guarded .underflow (y ≤ x) (x - y)

def mulWord (x y : BitVec w) : Run (BitVec w) :=
  guarded .overflow (x.toNat * y.toNat < 2 ^ w) (x * y)

/-- The sum of two counters, none of which is narrower than 32 bits. -/
def add (a b : Nat) : Run Nat := guarded .overflow (a + b < 2 ^ 32) (a + b)

def mul (a b : Nat) : Run Nat := guarded .overflow (a * b < 2 ^ 32) (a * b)

def sub (a b : Nat) : Run Nat := guarded .underflow (b ≤ a) (a - b)

def div (a b : Nat) : Run Nat := guarded .division (b ≠ 0) (a / b)

example : shiftLeft (1 : BitVec 32) 31 = .ok 0x80000000 := rfl

example : shiftLeft (1 : BitVec 32) 32 = .error .shift := rfl

/-! ## Arrays -/

def get (xs : Vector α n) (i : Nat) : Run α := if h : i < n then pure xs[i] else throw .index

def set (xs : Vector α n) (i : Nat) (value : α) : Run (Vector α n) :=
  if h : i < n then pure (xs.set i value) else throw .index

/-- The elements from `start` up to `stop`. -/
def slice (xs : Vector α n) (start stop : Nat) : Run (List α) :=
  guarded .index (start ≤ stop ∧ stop ≤ n) ((xs.toList.take stop).drop start)

theorem get_eq (xs : Vector α n) {i : Nat} (h : i < n) : get xs i = pure xs[i] := dif_pos h

theorem set_eq (xs : Vector α n) {i : Nat} (h : i < n) (value : α) :
    set xs i value = pure (xs.set i value) := dif_pos h

/-! ## Loops -/

/-- A loop whose every turn moves on from one state of a sequence to the next. -/
theorem foldlM_range (state : Nat → β) {body : β → Nat → Run β} {bound : Nat}
    (h : ∀ i < bound, body (state i) i = pure (state (i + 1))) :
    (List.range bound).foldlM body (state 0) = pure (state bound) := by
  induction bound with
  | zero => rfl
  | succ bound ih =>
    have hbelow := ih fun i hi ↦ h i (Nat.lt_succ_of_lt hi)
    rw [List.range_succ, List.foldlM_append, hbelow, pure_bind, List.foldlM_cons,
      h bound (Nat.lt_succ_self bound), pure_bind, List.foldlM_nil]

theorem anyM_eq {test : α → Run Bool} {p : α → Bool} {xs : List α}
    (h : ∀ x ∈ xs, test x = pure (p x)) : xs.anyM test = pure (xs.any p) := by
  induction xs with
  | nil => rfl
  | cons x xs ih =>
    rw [List.anyM, h x List.mem_cons_self, pure_bind, List.any_cons]
    cases p x with
    | true => rfl
    | false => exact ih fun y hy ↦ h y (List.mem_cons_of_mem x hy)

theorem allM_eq {test : α → Run Bool} {p : α → Bool} {xs : List α}
    (h : ∀ x ∈ xs, test x = pure (p x)) : xs.allM test = pure (xs.all p) := by
  induction xs with
  | nil => rfl
  | cons x xs ih =>
    rw [List.allM, h x List.mem_cons_self, pure_bind, List.all_cons]
    cases p x with
    | true => exact ih fun y hy ↦ h y (List.mem_cons_of_mem x hy)
    | false => rfl

end TrapEmulation.Checked
