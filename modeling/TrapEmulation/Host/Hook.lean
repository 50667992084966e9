import TrapEmulation.Host.Symbols

/-!
# Hooks

A hook redirects one routine of the host. A list of hooks is installed as a whole or not at all: if
one of them fails, those installed before it are removed again, the latest first. Removal goes on
past failures, which are only reported.
-/

namespace TrapEmulation.Host

/-- The redirection of one routine to a replacement. -/
structure Hook where
  name : String
  replacement : Address
  /-- The address of the redirected routine while the hook is installed. -/
  address : Option Address := none
  /-- Where a call reaches the routine itself while the hook is installed. -/
  entry : Option Address := none
  deriving DecidableEq, Repr

namespace Hook

def isInstalled (hook : Hook) : Bool := hook.address.isSome

/-- The hook without its redirection. -/
def cleared (hook : Hook) : Hook := { hook with address := none, entry := none }

end Hook

/-- The number of bytes of the tracing call that a host may put at the start of a routine. -/
def traceCallSize : Address := 5

/-- How hooks find their routines. -/
structure Interceptor where
  /-- What may be put before the plain name of a routine. -/
  prefixes : List String := []
  /-- The routine itself is entered behind its tracing call. -/
  skipsTraceCall : Bool := false
  deriving DecidableEq, Repr

namespace Interceptor

variable {η : Type} [Redirector η]

/-- Where a routine at an address is entered. The addition wraps at the end of the address space, as in a
release build; under overflow checks it fails there instead. -/
def entryAt (interceptor : Interceptor) (address : Address) : Address :=
  if interceptor.skipsTraceCall then address + traceCallSize else address

/-- Redirects one routine. A hook that fails stays as it was. -/
def installOne (interceptor : Interceptor) (hook : Hook) : SessionM η (Except HookError Hook) := do
  match ← resolve interceptor.prefixes hook.name with
  | none =>
    Session.report (.symbolUnresolved hook.name)
    return .error (.unresolved hook.name)
  | some address =>
    match ← Session.attach address hook.replacement with
    | some code =>
      Session.report (.attachFailed hook.name code)
      return .error (.attach hook.name code)
    | none =>
      return .ok { hook with address := some address, entry := some (interceptor.entryAt address) }

/-- Takes one redirection down. The hook counts as removed even if the host fails to do so. -/
def removeOne (hook : Hook) : SessionM η Hook := do
  match hook.address with
  | none => return hook
  | some address =>
    match ← Session.detach address with
    | none => return hook.cleared
    | some code =>
      Session.report (.notRestored (.detach hook.name code))
      return hook.cleared

/-- Installs every hook in order, or leaves none of them installed. -/
def install (interceptor : Interceptor) :
    List Hook → SessionM η (Except HookError Unit × List Hook)
  | [] => return (.ok (), [])
  | hook :: rest => do
    match ← interceptor.installOne hook with
    | .error error => return (.error error, hook :: rest)
    | .ok installed =>
      match ← interceptor.install rest with
      | (.ok (), rest) => return (.ok (), installed :: rest)
      | (.error error, rest) =>
        let removed ← removeOne installed
        return (.error error, removed :: rest)

/-- Removes every hook that is installed, in order. -/
def remove (hooks : List Hook) : SessionM η (List Hook) := hooks.mapM removeOne

end Interceptor

end TrapEmulation.Host
