import RunLedger.Text.Utf8
import RunLedger.Parameters

set_option autoImplicit false

namespace RunLedger

open Text

/-- Variables as a process holds them: byte strings `name=value`. -/
structure Environment where
  bindings : List Bytes
  deriving DecidableEq, Repr

namespace Environment

def empty : Environment :=
  ⟨[]⟩

instance : Inhabited Environment := ⟨empty⟩

/-- What a lookup compares the variables with: the name and the sign after it. -/
def label (name : String) : Bytes :=
  Utf8.encode name ++ [0x3D]

/-- The value of the first variable that has the name. -/
def get? (e : Environment) (name : String) : Option Bytes :=
  let l := label name
  (e.bindings.find? (l.isPrefixOf ·)).map (·.drop l.length)

/-- Replaces the value of the first variable that has the label, or adds a variable. -/
def setIn (l : Bytes) (value : Bytes) : List Bytes → List Bytes
  | [] => [l ++ value]
  | v :: r => if l.isPrefixOf v then (l ++ value) :: r else v :: setIn l value r

/-- Gives a variable a value, in the place of the one that it has. -/
def set (e : Environment) (name : String) (value : Bytes) : Environment :=
  ⟨setIn (label name) value e.bindings⟩

def ofPairs (ps : List (String × Bytes)) : Environment :=
  ps.foldl (fun e p => e.set p.1 p.2) empty

/-- The sign that a key's character becomes in the name of a variable. -/
def nameChar (c : Char) : Char :=
  if c = '.' ∨ c = '-' then '_' else c.toUpper

def variableName (start key : String) : String :=
  start ++ String.ofList (key.toList.map nameChar)

/-- No variable has an empty name or a name with a NUL. -/
def isName (name : String) : Bool :=
  !name.isEmpty && !name.toList.contains '\x00'

/-- The value of a variable of a name. -/
def value? (e : Environment) (name : String) : Option Bytes :=
  if isName name then e.get? name else none

def text? (e : Environment) (name : String) : Option String :=
  (e.value? name).bind Utf8.decode?

/-- A value that is not text is remarked on. -/
def remarks (e : Environment) (name : String) : List String :=
  if (e.value? name).any fun v => (Utf8.decode? v).isNone then
    ["ignoring non-UTF-8 environment variable " ++ name]
  else []

/-- The variables whose names begin with `start`, under the keys that the rest spells. -/
def parameters (e : Environment) (start : String) : Parameters :=
  ⟨fun key => e.text? (variableName start key), fun key => e.remarks (variableName start key)⟩

end Environment

end RunLedger
