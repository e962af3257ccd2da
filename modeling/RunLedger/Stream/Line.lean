import RunLedger.Failure.Fault
import RunLedger.Stream.Event
import RunLedger.Text.Utf8
import RunLedger.Text.WhiteSpace
/-
The lines of a stream. A line feed ends a line, with a carriage return in front of it or none. The
bytes behind the last line feed are a line if the stream ends there, but are lost if reading fails
there. White space around a line is of no account.
-/

set_option autoImplicit false

namespace RunLedger.Stream

open Text

/-- Bytes to be read, and what reading behind them fails with, if it does not find the end. -/
structure Source where
  bytes : Bytes
  failure : Option Fault
  deriving DecidableEq, Repr

/-- The lines that a line feed ends, and what is behind the last one. -/
def splitLines : Bytes → List Bytes × Bytes
  | [] => ([], [])
  | b :: r =>
    match splitLines r with
    | (ls, last) =>
      if b = 0x0A then ([] :: ls, last)
      else
        match ls with
        | [] => ([], b :: last)
        | l :: ls => ((b :: l) :: ls, last)

/-- Takes away a carriage return at the end. -/
def dropReturn (l : Bytes) : Bytes :=
  if l.getLast? = some 0x0D then l.dropLast else l

/-- The lines that are delivered before reading ends. -/
def Source.lines (s : Source) : List Bytes :=
  let (ls, last) := splitLines s.bytes
  ls.map dropReturn ++ if s.failure.isNone ∧ last ≠ [] then [last] else []

inductive Line where
  | blank
  /-- text that is no object at all -/
  | chatter (text : String)
  /-- an object that is no event, or a broken one -/
  | foreign
  | event (e : Event)
  deriving DecidableEq, Repr

namespace Line

/-- What a line is. It is trimmed before it is looked at. -/
def ofText (s : String) : Line :=
  let t := trim s
  match t.toList with
  | [] => .blank
  | c :: _ =>
    if c ≠ '\x7b' then .chatter t
    else
      match (Json.Value.read? t).bind Event.ofValue? with
      | some e => .event e
      | none => .foreign

def isSkipped : Line → Bool
  | chatter _ | foreign => true
  | blank | event _ => false

def isSuiteStart : Line → Bool
  | event e => e.isSuiteStart
  | _ => false

def isTestFinish : Line → Bool
  | event e => e.isTestFinish
  | _ => false

/-- A line that starts the run if it has not started yet. -/
def startsRun (l : Line) : Bool :=
  l.isSuiteStart || l.isTestFinish

end Line

end RunLedger.Stream
