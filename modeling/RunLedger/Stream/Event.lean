import RunLedger.Identifier
import RunLedger.Json.Value

set_option autoImplicit false

namespace RunLedger.Stream

open Json (Value)

inductive Event where
  /-- the tests of a binary start -/
  | suiteStarted
  | testFinished (name : String) (outcome : Outcome)
  /-- anything else that a binary reports -/
  | other
  deriving DecidableEq, Repr

namespace Event

abbrev Members := List (String × Value)

/-- The values of all members of a name. -/
def valuesOf (ms : Members) (name : String) : List Value :=
  (ms.filter (·.1 = name)).map (·.2)

/-- The value of a member that has to be there once. -/
def only? (ms : Members) (name : String) : Option Value :=
  match valuesOf ms name with
  | [v] => some v
  | _ => none

def string? : Value → Option String
  | .string s => some s
  | _ => none

/-- A word is a string, or the name of a sole member that holds nothing. -/
def word? : Value → Option String
  | .string s => some s
  | .object [(s, .null)] => some s
  | .object [(s, .object [])] => some s
  | _ => none

/-- The text of a member that may be missing or null. -/
def text? (ms : Members) (name : String) : Option (Option String) :=
  match valuesOf ms name with
  | [] | [.null] => some none
  | [.string s] => some (some s)
  | _ => none

def suite? (ms : Members) : Option Event := do
  let word ← word? (← only? ms "event")
  return if word = "started" then .suiteStarted else .other

/-- A failed test is described by its message, and without one by its output. -/
def ofTest (word name : String) (output message : Option String) : Event :=
  if word = "ok" then .testFinished name .successful
  else if word = "failed" then .testFinished name (.failed (message <|> output))
  else if word = "ignored" then .testFinished name (.skipped message)
  else .other

def test? (ms : Members) : Option Event := do
  let word ← word? (← only? ms "event")
  let name ← string? (← only? ms "name")
  let output ← text? ms "stdout"
  let message ← text? ms "message"
  return ofTest word name output message

/-- The event of an object, if it is one. -/
def ofMembers? (ms : Members) : Option Event := do
  let type ← string? (← only? ms "type")
  if type = "suite" then suite? ms
  else if type = "test" then test? ms
  else some .other

def ofValue? : Value → Option Event
  | .object ms => ofMembers? ms
  | _ => none

def isSuiteStart (e : Event) : Bool :=
  e = .suiteStarted

def isTestFinish : Event → Bool
  | testFinished _ _ => true
  | _ => false

end Event

end RunLedger.Stream
