import RunLedger.File.Access
import RunLedger.Parameters.Dictionary
import RunLedger.Toml.Document
import RunLedger.Toml.Printer

set_option autoImplicit false

namespace RunLedger.Document

open Toml

/-- The key of an entry in a table that has the key `above`, or in the document itself. -/
def joinKey (above : Option String) (k : String) : String :=
  match above with
  | none => k
  | some a => a ++ "." ++ k

/-- The text of a value that is no table. -/
def text : Value → String
  | .string s => s
  | v => v.render

mutual

/-- Adds what a value holds below its key. A later entry replaces one of the same key. -/
def flattenValue (d : Dictionary) (key : String) : Value → Dictionary
  | .table es => flattenTable d (some key) es
  | v => d.insert key (text v)

def flattenTable (d : Dictionary) (above : Option String) : List (String × Value) → Dictionary
  | [] => d
  | (k, v) :: es => flattenTable (flattenValue d (joinKey above k) v) above es

end

def flatten (t : Table) : Dictionary :=
  flattenTable .empty none t

/-- Reads a document. -/
def ofText? (s : String) : Option Dictionary :=
  (read? s).map flatten

/-- Why the document of a file was not loaded. -/
inductive LoadError where
  | read (path : String) (cause : Fault)
  | malformed (path : String)
  deriving DecidableEq, Repr

/-- What is wrong with a malformed document is not part of the failure. -/
def LoadError.chain : LoadError → Chain
  | .read path cause => cause.chain.under ("failed to read parameters file " ++ path)
  | .malformed path => ⟨"failed to parse parameters file " ++ path, []⟩

/-- Loads the document of the file at a path. -/
def load (t : File.Tree) (path : String) : Logged (Except LoadError Dictionary) :=
  match t.readText (Text.Utf8.encode path) with
  | .error f => pure (.error (.read path f))
  | .ok s =>
    match ofText? s with
    | none => pure (.error (.malformed path))
    | some d => do
      Logged.log .debug ("loaded " ++ toString d.size ++ " parameters from " ++ path)
      pure (.ok d)

end RunLedger.Document
