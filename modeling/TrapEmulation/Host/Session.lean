import TrapEmulation.Log

/-!
# Sessions with the host

The host finds routines by name and redirects them by address. What it answers may depend on
everything it was asked before. A `Session` keeps the state of the host together with the calls made
to it and the events reported so far, both in order.
-/

namespace TrapEmulation.Host

/-- A host in state `η` whose routines can be found and redirected. -/
class Redirector (η : Type) where
  /-- The address of a routine. -/
  lookup : η → String → Option Address × η
  /-- Sends calls of a routine to a replacement, and gives a code if that fails. -/
  attach : (host : η) → (address replacement : Address) → Option Int × η
  /-- Sends calls of a routine to itself again, and gives a code if that fails. -/
  detach : (host : η) → (address : Address) → Option Int × η

/-- A call to the host and what came back. -/
inductive HostCall where
  | lookup (name : String) (address : Option Address)
  | attach (address replacement : Address) (code : Option Int)
  | detach (address : Address) (code : Option Int)
  deriving DecidableEq, Repr

structure Session (η : Type) where
  host : η
  calls : List HostCall := []
  log : List LogEvent := []

abbrev SessionM (η : Type) := StateM (Session η)

namespace Session

variable {η : Type}

/-- Reports an event. -/
def report (event : LogEvent) : SessionM η Unit :=
  modify fun session ↦ { session with log := session.log ++ [event] }

variable [Redirector η]

def lookup (name : String) : SessionM η (Option Address) := fun session ↦
  let (address, host) := Redirector.lookup session.host name
  (address, { session with host, calls := session.calls ++ [.lookup name address] })

def attach (address replacement : Address) : SessionM η (Option Int) := fun session ↦
  let (code, host) := Redirector.attach session.host address replacement
  (code, { session with host, calls := session.calls ++ [.attach address replacement code] })

def detach (address : Address) : SessionM η (Option Int) := fun session ↦
  let (code, host) := Redirector.detach session.host address
  (code, { session with host, calls := session.calls ++ [.detach address code] })

end Session

end TrapEmulation.Host
