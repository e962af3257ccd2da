import RunLedger.Toml.Statement

set_option autoImplicit false

namespace RunLedger.Toml

/-- A document in the middle of its statements: its entries, and the path that the last header
named. -/
structure Draft where
  entries : Entries Node
  path : List String

namespace Draft

/-- Goes to the table that a header names. -/
def enter (d : Draft) (f : String → Entries Node → Option (Entries Node)) (path : List String) :
    Option Draft := do
  let es ← Node.under (f (← path.getLast?)) path.dropLast d.entries
  return ⟨es, path⟩

def add (d : Draft) : Statement → Option Draft
  | .entry path n => (Node.under (n.assign path) d.path d.entries).map (⟨·, d.path⟩)
  | .header path => d.enter Node.declare path
  | .element path => d.enter Node.append path

end Draft

/-- The table that a text describes, if it is a document. The document's own table stands for
itself, whatever its keys. -/
def read? (s : String) : Option Table := do
  let statements ← Statement.ofTokens? (← Token.ofText? s)
  let d ← statements.foldlM Draft.add ⟨[], []⟩
  Node.table? d.entries

end RunLedger.Toml
