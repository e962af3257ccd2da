import RunLedger.Toml.Node
import RunLedger.Toml.Token
/-
The statements of a document: entries and headers. Tokens are read by a machine that keeps what it
is in the middle of on a stack, arrays and inline tables being nested. An inline table is finished
by its closing brace, so that later statements cannot add to it. Inside one, lines may end anywhere
but within a dotted key.
-/

set_option autoImplicit false

namespace RunLedger.Toml

inductive Statement where
  /-- sets an entry of the table that the last header named -/
  | entry (path : List String) (node : Node)
  /-- names a table -/
  | header (path : List String)
  /-- adds a table to an array of tables -/
  | element (path : List String)

namespace Statement

/-- How deep arrays and inline tables may be nested, and how many parts a dotted key may have. -/
def depthLimit : Nat := 80

/-- A value that is not finished. -/
inductive Frame where
  /-- the entry of a statement; it is below all others -/
  | entry (path : List String)
  /-- an array with its items so far, the last first -/
  | array (items : List Node)
  /-- an inline table with its entries so far, and the key of the one being read -/
  | table (entries : Entries Node) (path : List String)

/-- What a dotted key is read for. -/
inductive Goal where
  | entry
  | header
  | element
  deriving DecidableEq, Repr

/-- What may come next. -/
inductive Expect where
  | statement
  /-- one bracket was read where a statement begins -/
  | bracket
  /-- a part of a dotted key; the parts before it have the last one first -/
  | part (goal : Goal) (parts : List String)
  /-- what follows a part -/
  | joint (goal : Goal) (parts : List String)
  /-- the equals sign behind a key of an inline table, on a later line than the key -/
  | equals (path : List String)
  /-- the second bracket behind the path of an array of tables -/
  | closing (path : List String)
  | lineEnd
  | value
  /-- a value without quotes, read so far with the last character first -/
  | scalar (read : List Char)
  /-- an item of an array or its end -/
  | item
  /-- what follows an item -/
  | itemEnd
  /-- an entry of an inline table or its end -/
  | member
  /-- what follows an entry of an inline table -/
  | memberEnd

structure Reader where
  /-- the statements read, the last first -/
  done : List Statement
  frames : List Frame
  expect : Expect

namespace Reader

/-- A value is finished. -/
def give (r : Reader) (n : Node) : Option Reader :=
  match r.frames with
  | .entry path :: _ => some ⟨.entry path n :: r.done, [], .lineEnd⟩
  | .array items :: fs => some ⟨r.done, .array (n :: items) :: fs, .itemEnd⟩
  | .table es path :: fs =>
    (n.assign path es).map fun es => ⟨r.done, .table es [] :: fs, .memberEnd⟩
  | [] => none

def close (r : Reader) (t : Token) : Option Reader :=
  match r.frames, t with
  | .array items :: fs, .closeBracket => { r with frames := fs }.give (.array items.reverse)
  | .table es _ :: fs, .closeBrace => { r with frames := fs }.give (.closed es)
  | _, _ => none

def push (r : Reader) (f : Frame) (e : Expect) : Option Reader :=
  if r.frames.length ≤ depthLimit then some ⟨r.done, f :: r.frames, e⟩ else none

def begin (r : Reader) : Token → Option Reader
  | .openBracket => r.push (.array []) .item
  | .openBrace => r.push (.table [] []) .member
  | .text cs _ => r.give (.string (String.ofList cs))
  | .atom cs => some { r with expect := .scalar cs.reverse }
  | _ => none

def part? : Token → Option String
  | .atom cs => if isBareKey cs then some (String.ofList cs) else none
  | .text cs false => some (String.ofList cs)
  | _ => none

def addPart (r : Reader) (goal : Goal) (parts : List String) (t : Token) : Option Reader :=
  (part? t).map fun k => { r with expect := .joint goal (k :: parts) }

/-- Whether an inline table is being read, and nothing inside it. -/
def inTable (r : Reader) : Bool :=
  match r.frames with
  | .table _ _ :: _ => true
  | _ => false

/-- A dotted key is finished by an equals sign. -/
def key (r : Reader) (path : List String) : Option Reader :=
  match r.frames with
  | [] => some ⟨r.done, [.entry path], .value⟩
  | .table es _ :: fs => some ⟨r.done, .table es path :: fs, .value⟩
  | _ => none

def emit (r : Reader) (s : Statement) : Reader :=
  ⟨s :: r.done, [], .lineEnd⟩

def afterPart (r : Reader) (goal : Goal) (parts : List String) (t : Token) : Option Reader :=
  match goal, t with
  | _, .blank _ => some r
  | _, .dot =>
    if parts.length < depthLimit then some { r with expect := .part goal parts } else none
  | .entry, .equals => r.key parts.reverse
  | .entry, .newline =>
    if r.inTable then some { r with expect := .equals parts.reverse } else none
  | .header, .closeBracket => some (r.emit (.header parts.reverse))
  | .element, .closeBracket => some { r with expect := .closing parts.reverse }
  | _, _ => none

/-- What follows a value: the end of its line, or its separator from the next one. -/
def afterValue (r : Reader) (t : Token) : Option Reader :=
  match r.expect, t with
  | .lineEnd, .blank _ | .itemEnd, .blank _ | .memberEnd, .blank _ => some r
  | .itemEnd, .newline | .memberEnd, .newline => some r
  | .lineEnd, .newline => some { r with expect := .statement }
  | .itemEnd, .comma => some { r with expect := .item }
  | .memberEnd, .comma => some { r with expect := .member }
  | .itemEnd, .closeBracket | .memberEnd, .closeBrace => r.close t
  | _, _ => none

def isBlank (c : Char) : Bool :=
  c = ' ' || c = '\t'

/-- Points and blanks belong to a value without quotes if it goes on behind them. -/
def inScalar (r : Reader) (read : List Char) : Token → Option Reader
  | .atom cs | .blank cs => some { r with expect := .scalar (cs.reverse ++ read) }
  | .dot => some { r with expect := .scalar ('.' :: read) }
  | t => do
    let s ← Scalar.read? (read.dropWhile isBlank).reverse
    (← r.give (.scalar s)).afterValue t

def step (r : Reader) (t : Token) : Option Reader :=
  match r.expect, t with
  | .statement, .blank _ | .statement, .newline => some r
  | .statement, .openBracket => some { r with expect := .bracket }
  | .statement, t => r.addPart .entry [] t
  | .bracket, .openBracket => some { r with expect := .part .element [] }
  | .bracket, .blank _ => some { r with expect := .part .header [] }
  | .bracket, t => r.addPart .header [] t
  | .part .., .blank _ => some r
  | .part goal parts, t => r.addPart goal parts t
  | .joint goal parts, t => r.afterPart goal parts t
  | .equals _, .blank _ | .equals _, .newline => some r
  | .equals path, .equals => r.key path
  | .equals _, _ => none
  | .closing path, .closeBracket => some (r.emit (.element path))
  | .closing _, _ => none
  | .value, .blank _ => some r
  | .value, .newline => if r.inTable then some r else none
  | .value, t => r.begin t
  | .scalar read, t => r.inScalar read t
  | .item, .blank _ | .item, .newline | .member, .blank _ | .member, .newline => some r
  | .item, .closeBracket | .member, .closeBrace => r.close t
  | .item, t => r.begin t
  | .member, t => r.addPart .entry [] t
  | .lineEnd, t | .itemEnd, t | .memberEnd, t => r.afterValue t

def run (r : Reader) (ts : List Token) : Option Reader :=
  ts.foldlM step r

end Reader

/-- The statements that the tokens spell. The end of a document ends its last line. -/
def ofTokens? (ts : List Token) : Option (List Statement) := do
  let r ← Reader.run ⟨[], [], .statement⟩ (ts ++ [.newline])
  match r.expect with
  | .statement => some r.done.reverse
  | _ => none

end Statement

end RunLedger.Toml
