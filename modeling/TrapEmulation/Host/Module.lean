import TrapEmulation.Host.Hook
import TrapEmulation.Trap.Emulator

/-!
# Modules

A module is loaded into the host by installing its hooks, and unloaded by removing them. While it is
loaded it knows how to reach the routines it has redirected and which families it emulates.
-/

namespace TrapEmulation.Host

/-- A routine to redirect. -/
structure HookTarget where
  name : String
  replacement : Address
  deriving DecidableEq, Repr

structure ModuleConfig where
  targets : List HookTarget
  interceptor : Interceptor
  emulator : EmulatorConfig
  deriving DecidableEq, Repr

/-- The routine of the host that every fault of a user thread goes through. -/
def errorTrapSymbol : String := "do_error_trap"

/-- What a 64-bit host puts before the names of its entry points. -/
def entryPointTag : String := "__x64_"

namespace ModuleConfig

/-- Redirects the error-trap routine and nothing else. -/
def errorTrap (replacement : Address) : ModuleConfig where
  targets := [⟨errorTrapSymbol, replacement⟩]
  interceptor := { prefixes := [entryPointTag] }
  emulator := {}

/-- The hooks of a module that is not loaded. -/
def hooks (config : ModuleConfig) : List Hook :=
  config.targets.map fun target ↦ { name := target.name, replacement := target.replacement }

end ModuleConfig

/-- A module that could not be loaded. -/
structure LoadError where
  cause : HookError
  deriving DecidableEq, Repr

def LoadError.message (error : LoadError) : String :=
  "installing hooks failed: " ++ error.cause.message

structure Module where
  hooks : List Hook
  interceptor : Interceptor
  emulator : EmulatorConfig
  deriving DecidableEq, Repr

namespace Module

variable {η : Type} [Redirector η]

/-- Installs the hooks of a new module. Nothing is left installed if one of them fails. -/
def load (config : ModuleConfig) : SessionM η (Except LoadError Module) := do
  match ← config.interceptor.install config.hooks with
  | (.error error, _) => return .error ⟨error⟩
  | (.ok (), hooks) =>
    Session.report .moduleLoaded
    return .ok { hooks, interceptor := config.interceptor, emulator := config.emulator }

/-- Removes the hooks of a module. -/
def unload (m : Module) : SessionM η Unit := do
  let _ ← Interceptor.remove m.hooks
  Session.report .moduleUnloaded

/-- Where a call reaches the routine behind the first hook of a name. -/
def entry? (m : Module) (name : String) : Option Address :=
  match m.hooks.find? fun hook ↦ hook.name == name with
  | some hook => hook.entry
  | none => none

end Module

/-! ## Numbered modules -/

/-- Modules numbered in the order in which they were loaded. The number of an unloaded module is not
used again. -/
structure ModuleTable where
  slots : List (Option Module) := []
  deriving DecidableEq, Repr

namespace ModuleTable

/-- The loaded module of a number. -/
def get? (table : ModuleTable) (number : Nat) : Option Module := table.slots[number]?.join

/-- The modules that are loaded. -/
def live (table : ModuleTable) : List Module := table.slots.filterMap id

variable {η : Type} [Redirector η]

/-- Loads a module and gives it the next number. No number is used up by a failure. -/
def load (table : ModuleTable) (config : ModuleConfig) :
    SessionM η (Except LoadError (Nat × Module) × ModuleTable) := do
  match ← Module.load config with
  | .error error => return (.error error, table)
  | .ok m => return (.ok (table.slots.length, m), ⟨table.slots ++ [some m]⟩)

/-- Unloads the module of a number, if there is one. -/
def unload (table : ModuleTable) (number : Nat) : SessionM η (Bool × ModuleTable) := do
  match table.get? number with
  | none => return (false, table)
  | some m =>
    m.unload
    return (true, ⟨table.slots.set number none⟩)

end ModuleTable

end TrapEmulation.Host
