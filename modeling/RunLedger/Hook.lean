import RunLedger.Identifier
import RunLedger.Parameters

set_option autoImplicit false

namespace RunLedger

/-- An announcement. A run starts once, then every test and container that finishes is announced,
and then the run finishes. -/
inductive Hook where
  | runStarted (parameters : Parameters)
  | caseFinished (identifier : Identifier) (outcome : Outcome)
  | runFinished (parameters : Parameters)

end RunLedger
