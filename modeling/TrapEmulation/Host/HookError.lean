/-!
# Errors of redirecting a routine

A routine of the host is redirected by name. The name may have no address, and the host may refuse
to set a redirection up or to take it down, with a code of its own.
-/

namespace TrapEmulation.Host

inductive HookError where
  | unresolved (name : String)
  | attach (name : String) (code : Int)
  | detach (name : String) (code : Int)
  deriving DecidableEq, Repr

def HookError.message : HookError → String
  | unresolved name => "unresolved symbol: " ++ name
  | attach name code => "failed to redirect " ++ name ++ ": error " ++ toString code
  | detach name code => "failed to restore " ++ name ++ ": error " ++ toString code

end TrapEmulation.Host
