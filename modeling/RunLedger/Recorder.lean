import RunLedger.Hook
import RunLedger.Output.Target
/-
A recorder keeps the unique ids of the tests that finish in a run, and writes them to a file when
the run finishes. It is on or off for a whole run, as the parameters say at its start. Outcomes are
of no account, and containers are left out. A failure to write is logged, and that is all: it must
not affect the run.
-/

set_option autoImplicit false

namespace RunLedger

open File

/-- Without a working directory of its own, a recorder writes from that of the process. -/
structure Recorder where
  enabled : Bool
  /-- the ids that are kept, the latest first -/
  latest : List String
  workingDir : Option String
  deriving DecidableEq, Repr

namespace Recorder

def new (workingDir : Option String) : Recorder :=
  ⟨false, [], workingDir⟩

instance : Inhabited Recorder := ⟨new none⟩

/-- The ids that are kept, in the order in which their tests finished. -/
def ids (r : Recorder) : List String :=
  r.latest.reverse

/-- The directory that the output is found from. -/
def base (r : Recorder) (t : Tree) : Except Output.ResolveError String :=
  match r.workingDir with
  | some dir => .ok dir
  | none => Output.currentDir t

/-- Writes the ids that are kept, and gives the path of the file. -/
def write (r : Recorder) (t : Tree) (p : Parameters) :
    Logged (Except Output.WriteError String × Tree) :=
  match r.base t with
  | .error e => pure (.error (.resolve e), t)
  | .ok cwd => Output.write t cwd p r.ids

def start (r : Recorder) (p : Parameters) : Logged Recorder := do
  let enabled := (← p.getFlag Parameters.enabledKey).getD false
  Logged.log .trace ("unique ID tracking enabled: " ++ if enabled then "true" else "false")
  return { r with enabled := enabled, latest := [] }

def finishCase (r : Recorder) (i : Identifier) : Recorder :=
  if r.enabled ∧ i.isTest then { r with latest := i.uniqueId :: r.latest } else r

theorem ids_finishCase (r : Recorder) (i : Identifier) :
    (r.finishCase i).ids = if r.enabled ∧ i.isTest then r.ids ++ [i.uniqueId] else r.ids := by
  unfold finishCase
  split
  · exact List.reverse_cons
  · rfl

def finish (r : Recorder) (t : Tree) (p : Parameters) : Logged (Recorder × Tree) :=
  if r.enabled then do
    let (result, t) ← r.write t p
    match result with
    | .error e => Logged.log .error e.chain.render
    | .ok _ => pure ()
    return ({ r with latest := [] }, t)
  else pure (r, t)

/-- What an announcement does to a recorder and to the files. -/
def notify (r : Recorder) (t : Tree) : Hook → Logged (Recorder × Tree)
  | .runStarted p => do return (← r.start p, t)
  | .caseFinished i _ => pure (r.finishCase i, t)
  | .runFinished p => r.finish t p

/-- What announcements in turn do. -/
def notifyAll (r : Recorder) (t : Tree) : List Hook → Logged (Recorder × Tree)
  | [] => pure (r, t)
  | h :: hs => do
    let (r, t) ← r.notify t h
    notifyAll r t hs

end Recorder

end RunLedger
