import RunLedger.Json.Number
import RunLedger.Json.Token

set_option autoImplicit false

namespace RunLedger.Json

/-- The members of an object are kept in their order, with repeated names. -/
inductive Value where
  | null
  | boolean (b : Bool)
  | number (n : Number)
  | string (s : String)
  | array (items : List Value)
  | object (members : List (String × Value))
  deriving Repr

instance : Inhabited Value := ⟨.null⟩

namespace Value

/-- How many arrays and objects may be open at a time. -/
def depthLimit : Nat := 127

/-- A value that is not finished. Items and members have the last one first. -/
inductive Frame where
  | array (items : List Value)
  | object (members : List (String × Value)) (name : String)

/-- What may come next. -/
inductive Expect where
  | value
  /-- the first item of an array or its end -/
  | firstItem
  /-- the name of the first member of an object or its end -/
  | firstName
  | name
  | colon
  /-- what follows an item or a member -/
  | next
  deriving DecidableEq, Repr

structure Reader where
  frames : List Frame
  expect : Expect
  /-- the value of the whole text, once it is finished -/
  result : Option Value

namespace Reader

/-- A value is finished. -/
def give (r : Reader) (v : Value) : Reader :=
  match r.frames with
  | [] => ⟨[], .next, some v⟩
  | .array vs :: fs => ⟨.array (v :: vs) :: fs, .next, none⟩
  | .object ms k :: fs => ⟨.object ((k, v) :: ms) "" :: fs, .next, none⟩

def push (r : Reader) (f : Frame) (e : Expect) : Option Reader :=
  if r.frames.length < depthLimit then some ⟨f :: r.frames, e, none⟩ else none

def atom? (cs : List Char) : Option Value :=
  if cs = ['n', 'u', 'l', 'l'] then some .null
  else if cs = ['t', 'r', 'u', 'e'] then some (.boolean true)
  else if cs = ['f', 'a', 'l', 's', 'e'] then some (.boolean false)
  else (Number.read? cs).map .number

def begin (r : Reader) : Token → Option Reader
  | .openBracket => r.push (.array []) .firstItem
  | .openBrace => r.push (.object [] "") .firstName
  | .string cs => some (r.give (.string (String.ofList cs)))
  | .atom cs => (atom? cs).map r.give
  | _ => none

def close (r : Reader) (t : Token) : Option Reader :=
  match r.frames, t with
  | .array vs :: fs, .closeBracket => some ({ r with frames := fs }.give (.array vs.reverse))
  | .object ms _ :: fs, .closeBrace => some ({ r with frames := fs }.give (.object ms.reverse))
  | _, _ => none

def setName (r : Reader) (cs : List Char) : Option Reader :=
  match r.frames with
  | .object ms _ :: fs => some ⟨.object ms (String.ofList cs) :: fs, .colon, none⟩
  | _ => none

/-- What follows an item or a member. -/
def next (r : Reader) (t : Token) : Option Reader :=
  match r.frames, t with
  | .array _ :: _, .comma => some { r with expect := .value }
  | .object _ _ :: _, .comma => some { r with expect := .name }
  | _, t => r.close t

def step (r : Reader) (t : Token) : Option Reader :=
  match r.expect, t with
  | .value, t => r.begin t
  | .firstItem, .closeBracket => r.close t
  | .firstItem, t => r.begin t
  | .firstName, .closeBrace => r.close t
  | .firstName, .string cs | .name, .string cs => r.setName cs
  | .colon, .colon => some { r with expect := .value }
  | .next, t => r.next t
  | _, _ => none

end Reader

/-- The value that tokens spell, if they spell one. -/
def ofTokens? (ts : List Token) : Option Value := do
  let r ← ts.foldlM Reader.step ⟨[], .value, none⟩
  r.result

def read? (s : String) : Option Value := do
  ofTokens? (← Token.ofText? s)

end Value

end RunLedger.Json
