import TrapEmulation.Host.Session

/-!
# Symbols

One routine goes by different names on different hosts, which differ in what is put before the plain
name. A name is looked up plainly first and then behind each of a list of prefixes, and the first
address found is taken.
-/

namespace TrapEmulation.Host

/-- The names that a routine may go by, in the order in which they are tried. -/
def candidates (prefixes : List String) (name : String) : List String :=
  name :: prefixes.map fun p ↦ p ++ name

variable {η : Type} [Redirector η]

/-- The first address found under the names. No name after it is asked for. -/
def firstAddress : List String → SessionM η (Option Address)
  | [] => return none
  | name :: rest => do
    match ← Session.lookup name with
    | some address => return some address
    | none => firstAddress rest

/-- The address of a routine under any of its names. -/
def resolve (prefixes : List String) (name : String) : SessionM η (Option Address) :=
  firstAddress (candidates prefixes name)

/-! ## Symbol tables -/

/-- Names with their addresses, the latest entry first. -/
structure SymbolTable where
  entries : List (String × Address)
  deriving DecidableEq, Repr

namespace SymbolTable

def empty : SymbolTable := ⟨[]⟩

def insert (table : SymbolTable) (name : String) (address : Address) : SymbolTable :=
  ⟨(name, address) :: table.entries⟩

/-- Enters the pairs in order. -/
def ofList (pairs : List (String × Address)) : SymbolTable :=
  pairs.foldl (fun table pair ↦ table.insert pair.1 pair.2) empty

/-- The address last entered under a name. -/
def get? (table : SymbolTable) (name : String) : Option Address := table.entries.lookup name

theorem get?_insert (table : SymbolTable) (name other : String) (address : Address) :
    (table.insert name address).get? other =
      if other = name then some address else table.get? other := by
  by_cases h : other = name
  · simp [get?, insert, h]
  · have : (other == name) = false := by simpa using h
    simp [get?, insert, List.lookup_cons, h, this]

end SymbolTable

end TrapEmulation.Host
