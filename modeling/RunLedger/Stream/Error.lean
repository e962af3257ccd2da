import RunLedger.Failure.Fault

set_option autoImplicit false

namespace RunLedger.Stream

/-- A line could not be read. Lines count from one. -/
structure ReadError where
  line : Nat
  cause : Fault
  deriving DecidableEq, Repr

def ReadError.chain (e : ReadError) : Chain :=
  e.cause.chain.under ("failed to read libtest output at line " ++ toString e.line)

end RunLedger.Stream
