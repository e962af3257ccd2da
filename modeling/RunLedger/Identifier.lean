set_option autoImplicit false

namespace RunLedger

/-- The kind of a node in the test tree. A `containerAndTest` groups children and is executed
itself. -/
inductive Kind where
  | test
  | container
  | containerAndTest
  deriving DecidableEq, Repr

namespace Kind

def isTest : Kind → Bool
  | test | containerAndTest => true
  | container => false

def isContainer : Kind → Bool
  | container | containerAndTest => true
  | test => false

end Kind

/-- A node of the test tree. The unique id is opaque: the host keeps it unique and stable. -/
structure Identifier where
  uniqueId : String
  kind : Kind
  deriving DecidableEq, Repr

namespace Identifier

def isTest (i : Identifier) : Bool :=
  i.kind.isTest

def isContainer (i : Identifier) : Bool :=
  i.kind.isContainer

/-- An identifier is shown as its unique id. -/
def display (i : Identifier) : String :=
  i.uniqueId

end Identifier

/-- The outcome of executing a node, with a message where the host has one. -/
inductive Outcome where
  | successful
  | failed (message : Option String)
  | aborted (message : Option String)
  | skipped (reason : Option String)
  deriving DecidableEq, Repr

def Outcome.label : Outcome → String
  | successful => "successful"
  | failed _ => "failed"
  | aborted _ => "aborted"
  | skipped _ => "skipped"

end RunLedger
