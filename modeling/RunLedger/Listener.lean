import RunLedger.Recorder

set_option autoImplicit false

namespace RunLedger

open File

/-- What a witness hears of an announcement: of a run, what the parameters say at the key that
enables recording. -/
inductive Heard where
  | runStarted (enabled : Option String)
  | caseFinished (identifier : Identifier) (outcome : Outcome)
  | runFinished (enabled : Option String)
  deriving DecidableEq, Repr

/-- Something heard, with the name of the witness. -/
structure Testimony where
  witness : String
  heard : Heard
  deriving DecidableEq, Repr

inductive Listener where
  /-- takes no notice of anything -/
  | silent
  /-- keeps what it hears, the latest first -/
  | witness (name : String) (heard : List Heard)
  | recorder (r : Recorder)
  /-- passes everything on to the listener that it holds -/
  | boxed (l : Listener)
  /-- passes everything on to its members, in the order in which they were registered -/
  | group (members : List Listener)
  deriving Repr

instance : Inhabited Listener := ⟨.silent⟩

/-- A value, what witnesses told on the way to it, and the files as they are then. -/
structure Told (α : Type) where
  value : α
  testimony : List Testimony
  tree : Tree

namespace Listener

def hear : Hook → Logged Heard
  | .runStarted p => do return .runStarted (← p.get Parameters.enabledKey)
  | .caseFinished i o => pure (.caseFinished i o)
  | .runFinished p => do return .runFinished (← p.get Parameters.enabledKey)

mutual

/-- What an announcement does to a listener. -/
def notify (h : Hook) (t : Tree) : Listener → Logged (Told Listener)
  | .silent => pure ⟨.silent, [], t⟩
  | .witness name heard => do
    let e ← hear h
    return ⟨.witness name (e :: heard), [⟨name, e⟩], t⟩
  | .recorder r => do
    let (r, t) ← r.notify t h
    return ⟨.recorder r, [], t⟩
  | .boxed l => do
    let told ← notify h t l
    return ⟨.boxed told.value, told.testimony, told.tree⟩
  | .group members => do
    let told ← notifyMembers h t members
    return ⟨.group told.value, told.testimony, told.tree⟩

def notifyMembers (h : Hook) (t : Tree) : List Listener → Logged (Told (List Listener))
  | [] => pure ⟨[], [], t⟩
  | l :: ls => do
    let first ← notify h t l
    let others ← notifyMembers h first.tree ls
    return ⟨first.value :: others.value, first.testimony ++ others.testimony, others.tree⟩

end

/-- What announcements in turn do. -/
def notifyAll (t : Tree) (l : Listener) : List Hook → Logged (Told Listener)
  | [] => pure ⟨l, [], t⟩
  | h :: hs => do
    let first ← notify h t l
    let others ← notifyAll first.tree first.value hs
    return ⟨others.value, first.testimony ++ others.testimony, others.tree⟩

/-- The members of a group; any other listener has none. -/
def members : Listener → List Listener
  | .group ls => ls
  | _ => []

/-- Adds a member to a group, behind the others. -/
def register (l : Listener) : Listener → Listener
  | .group ls => .group (ls ++ [l])
  | other => other

/-- What a host asks of a group: to pass an announcement on, or to take one more member. -/
inductive Call where
  | announce (h : Hook)
  | register (l : Listener)

/-- What calls in turn do. -/
def follow (t : Tree) (l : Listener) : List Call → Logged (Told Listener)
  | [] => pure ⟨l, [], t⟩
  | .announce h :: cs => do
    let first ← notify h t l
    let others ← follow first.tree first.value cs
    return ⟨others.value, first.testimony ++ others.testimony, others.tree⟩
  | .register m :: cs => follow t (register m l) cs

end Listener

end RunLedger
