import RunLedger.Hook
import RunLedger.Stream.Error
import RunLedger.Stream.Line
/-
Reading a stream. What the reader does is a list of actions in their order: records that it logs and
hooks that it announces. A stream is one run, whatever number of binaries it reports on: the run
starts before the first suite or finished test, and finishes when reading ends, be it in a failure.
-/

set_option autoImplicit false

namespace RunLedger.Stream

open Text

/-- Test names are unique within a binary only, so the name of the binary can qualify them. -/
structure Reader where
  parameters : Parameters
  binaryId : Option String

structure Tally where
  suitesStarted : Nat
  testsFinished : Nat
  linesSkipped : Nat
  deriving DecidableEq, Repr

inductive Action where
  | log (record : Record)
  | hook (hook : Hook)

/-- All that reading a stream does and results in. -/
structure Reading where
  actions : List Action
  tally : Tally
  failure : Option ReadError

namespace Tally

def ofLines (ls : List Line) : Tally :=
  ⟨ls.countP (·.isSuiteStart), ls.countP (·.isTestFinish), ls.countP (·.isSkipped)⟩

def record (t : Tally) : Record :=
  ⟨.debug, "read libtest events: " ++ toString t.suitesStarted ++ " suites started, " ++
    toString t.testsFinished ++ " tests finished, " ++ toString t.linesSkipped ++
    " lines skipped"⟩

end Tally

def uniqueId (binaryId : Option String) (name : String) : String :=
  match binaryId with
  | some b => "[binary:" ++ b ++ "]/[test:" ++ name ++ "]"
  | none => "[test:" ++ name ++ "]"

/-- The texts before the first line that is not UTF-8. -/
def texts : List Bytes → List String
  | [] => []
  | l :: ls =>
    match Utf8.decode? l with
    | some s => s :: texts ls
    | none => []

namespace Reader

/-- What a line itself gives rise to. Lines count from one. -/
def lineActions (r : Reader) (n : Nat) : Line → List Action
  | .blank => []
  | .chatter text =>
    [.log ⟨.trace, "skipping non-JSON line " ++ toString n ++ ": " ++ text⟩]
  | .foreign =>
    [.log ⟨.debug, "skipping line " ++ toString n ++ ", not a libtest event"⟩]
  | .event (.testFinished name outcome) =>
    [.hook (.caseFinished ⟨uniqueId r.binaryId name, .test⟩ outcome)]
  | .event _ => []

/-- The actions of the lines from number `n` on, in a run that has started or not. -/
def actions (r : Reader) (started : Bool) (n : Nat) : List Line → List Action
  | [] => []
  | l :: ls =>
    (if l.startsRun ∧ ¬ started then [.hook (.runStarted r.parameters)] else []) ++
      r.lineActions n l ++ r.actions (started || l.startsRun) (n + 1) ls

/-- Where and why reading ends early: at the first line that is not text, else behind all lines if
the source fails. -/
def failure? (s : Source) : Option ReadError :=
  let n := (texts s.lines).length
  if n < s.lines.length then some ⟨n + 1, .notText⟩ else s.failure.map (⟨n + 1, ·⟩)

def read (r : Reader) (s : Source) : Reading :=
  let ls := (texts s.lines).map Line.ofText
  let tally := Tally.ofLines ls
  let ending := if ls.any (·.startsRun) then [Action.hook (.runFinished r.parameters)] else []
  ⟨r.actions false 1 ls ++ ending ++ [.log tally.record], tally, failure? s⟩

end Reader

end RunLedger.Stream
