set_option autoImplicit false

namespace RunLedger

structure Chain where
  message : String
  causes : List String
  deriving DecidableEq, Repr

namespace Chain

/-- The failure as the nearest cause of another one. -/
def under (c : Chain) (message : String) : Chain :=
  ⟨message, c.message :: c.causes⟩

/-- A failure that has the messages in turn as its own and its causes'. -/
def ofMessages : List String → Option Chain
  | [] => none
  | m :: r => some ⟨m, r⟩

def item (cause : String) : String :=
  "\n  - " ++ cause

/-- The message alone if there is no cause, else followed by the list of causes. -/
def render (c : Chain) : String :=
  match c.causes with
  | [] => c.message
  | causes => c.message ++ "\ncaused by:" ++ String.join (causes.map item)

end Chain

end RunLedger
