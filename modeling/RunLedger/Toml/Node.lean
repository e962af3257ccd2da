import RunLedger.Toml.Scalar
/-
A document as it is written, while its tables are filled. How a table came about decides who may add
to it: what a header has named is closed to dotted keys, and what dotted keys have made, or gone
through, cannot be named by a header. What is written becomes a value in the end, if it has one.
-/

set_option autoImplicit false

namespace RunLedger.Toml

inductive Origin where
  /-- a header names the table -/
  | header
  /-- the table only lies on the way of headers -/
  | passed
  /-- the table lies on the way of a dotted key -/
  | dotted
  deriving DecidableEq, Repr

inductive Node where
  | string (s : String)
  | scalar (s : Scalar)
  | array (items : List Node)
  /-- a table between braces, to which nothing can be added -/
  | closed (entries : List (String × Node))
  | table (origin : Origin) (entries : List (String × Node))
  /-- the last table of an array of tables, and those before it with the latest first -/
  | tables (last : List (String × Node)) (earlier : List (List (String × Node)))

instance : Inhabited Node := ⟨.closed []⟩

namespace Node

/-- Sets the entry at a dotted key. It may not be there yet. Tables that only headers went through
are taken over. The way may lead through the last table of an array of tables, but an entry of that
table itself is not set in this way. -/
def assign (n : Node) : List String → Entries Node → Option (Entries Node)
  | [], _ => none
  | [k], es => if (es.get? k).isNone then some (es.insert k n) else none
  | k :: path, es =>
    match es.get? k with
    | none => (assign n path []).map fun t => es.insert k (.table .dotted t)
    | some (.table .passed t) | some (.table .dotted t) =>
      (assign n path t).map fun t => es.insert k (.table .dotted t)
    | some (.tables t ts) =>
      if path.length = 1 then none else (assign n path t).map fun t => es.insert k (.tables t ts)
    | some _ => none

/-- Changes the table that a header's path leads to. Tables on the way that are missing are made;
the way through an array of tables leads through its last one. -/
def under (f : Entries Node → Option (Entries Node)) : List String → Entries Node →
    Option (Entries Node)
  | [], es => f es
  | k :: path, es =>
    match es.get? k with
    | none => (under f path []).map fun t => es.insert k (.table .passed t)
    | some (.table o t) => (under f path t).map fun t => es.insert k (.table o t)
    | some (.tables t ts) => (under f path t).map fun t => es.insert k (.tables t ts)
    | some _ => none

/-- Names a table by a header. Another header may have led through it before. -/
def declare (k : String) (es : Entries Node) : Option (Entries Node) :=
  match es.get? k with
  | none => some (es.insert k (.table .header []))
  | some (.table .passed t) => some (es.insert k (.table .header t))
  | some _ => none

/-- Adds an empty table to an array of tables, which begins with its first one. -/
def append (k : String) (es : Entries Node) : Option (Entries Node) :=
  match es.get? k with
  | none => some (es.insert k (.tables [] []))
  | some (.tables t ts) => some (es.insert k (.tables [] (t :: ts)))
  | some _ => none

/-- A table whose first entry has this key, in the order of keys, stands for a moment. -/
def momentKey : String := "$__toml_private_datetime"

/-- The moment that a string spells. -/
def moment? : Node → Option Moment
  | .string s => Moment.read? s.toList
  | _ => none

mutual

def value? : Node → Option Value
  | .string s => some (.string s)
  | .scalar s => s.value?
  | .array items => (values? items).map .array
  | .closed es => tableValue? es
  | .table _ es => tableValue? es
  | .tables last earlier => do arrayValue? earlier [← tableValue? last]

/-- The value of a table in a document. Of one that stands for a moment only the first entry is
looked at. -/
def tableValue? : List (String × Node) → Option Value
  | [] => some (.table [])
  | (k, n) :: es =>
    if k = momentKey then (moment? n).map .moment
    else do return .table ((k, ← value? n) :: (← table? es))

/-- The entries of a table, each with its value. -/
def table? : List (String × Node) → Option Table
  | [] => some []
  | (k, n) :: es => do return (k, ← value? n) :: (← table? es)

def values? : List Node → Option (List Value)
  | [] => some []
  | n :: ns => do return (← value? n) :: (← values? ns)

/-- An array of tables, of which the later ones have become values. -/
def arrayValue? : List (List (String × Node)) → List Value → Option Value
  | [], vs => some (.array vs)
  | t :: ts, vs => do arrayValue? ts ((← tableValue? t) :: vs)

end

end Node

end RunLedger.Toml
