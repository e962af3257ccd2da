import RunLedger.Listener
import RunLedger.Stream.Reader

set_option autoImplicit false

namespace RunLedger.Stream

open File

/-- Carries out the actions: records are logged, and hooks are announced to the listener. -/
def dispatch (t : Tree) (l : Listener) : List Action → Logged (Told Listener)
  | [] => pure ⟨l, [], t⟩
  | .log r :: as => do
    Logged.log r.level r.message
    dispatch t l as
  | .hook h :: as => do
    let first ← l.notify h t
    let others ← dispatch first.tree first.value as
    return ⟨others.value, first.testimony ++ others.testimony, others.tree⟩

end RunLedger.Stream
