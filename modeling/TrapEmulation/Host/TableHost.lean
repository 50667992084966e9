import TrapEmulation.Host.Symbols

/-!
# Hosts given by tables

A `TableHost` answers from tables: the addresses of its routines, and the addresses at which
redirection fails, each with a code. It never changes.
-/

namespace TrapEmulation.Host

structure TableHost where
  symbols : SymbolTable
  attachFailures : List (Address × Int) := []
  detachFailures : List (Address × Int) := []
  deriving DecidableEq, Repr

instance : Redirector TableHost where
  lookup host name := (host.symbols.get? name, host)
  attach host address _ := (host.attachFailures.lookup address, host)
  detach host address := (host.detachFailures.lookup address, host)

end TrapEmulation.Host
