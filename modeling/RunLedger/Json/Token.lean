import RunLedger.Text.Digits

set_option autoImplicit false

namespace RunLedger.Json

inductive Token where
  | openBracket
  | closeBracket
  | openBrace
  | closeBrace
  | colon
  | comma
  | string (cs : List Char)
  /-- a run of characters that is no string, such as a number -/
  | atom (cs : List Char)
  deriving DecidableEq, Repr

namespace Token

/-- What follows a backslash. -/
inductive Escape where
  | sign
  /-- hexadecimal digits are still to be read, behind the first half of a pair or not -/
  | digits (more value : Nat) (high : Option Nat)
  /-- the backslash of the second half of a pair has to come -/
  | pairSign (high : Nat)
  /-- its letter has to come -/
  | pairLetter (high : Nat)
  deriving DecidableEq, Repr

/-- What has been read of a string or an atom has its last character first. -/
inductive Mode where
  | between
  | atom (read : List Char)
  | string (read : List Char)
  | escape (read : List Char) (e : Escape)
  deriving DecidableEq, Repr

def isBlank (c : Char) : Bool :=
  c = ' ' || c = '\t' || c = '\n' || c = '\r'

def structural? : Char → Option Token
  | '[' => some .openBracket
  | ']' => some .closeBracket
  | '\x7b' => some .openBrace
  | '\x7d' => some .closeBrace
  | ':' => some .colon
  | ',' => some .comma
  | _ => none

/-- Begins a token. -/
def start (c : Char) : List Token × Mode :=
  match structural? c with
  | some t => ([t], .between)
  | none =>
    if isBlank c then ([], .between)
    else if c = '\x22' then ([], .string [])
    else ([], .atom [c])

def endsAtom (c : Char) : Bool :=
  (structural? c).isSome || isBlank c || c = '\x22'

def escaped? : Char → Option Char
  | '\x22' => some '\x22'
  | '\\' => some '\\'
  | '/' => some '/'
  | 'b' => some '\x08'
  | 'f' => some '\x0c'
  | 'n' => some '\n'
  | 'r' => some '\r'
  | 't' => some '\t'
  | _ => none

def isHighSurrogate (n : Nat) : Bool :=
  0xD800 ≤ n && n < 0xDC00

def isLowSurrogate (n : Nat) : Bool :=
  0xDC00 ≤ n && n < 0xE000

/-- The code point of a pair of surrogates. -/
def paired (high low : Nat) : Nat :=
  0x10000 + (high - 0xD800) * 0x400 + (low - 0xDC00)

/-- All digits of an escape are read. -/
def afterUnit (read : List Char) (unit : Nat) : Option Nat → Option Mode
  | some high =>
    if isLowSurrogate unit then
      (Text.charOf? (paired high unit)).map fun c => .string (c :: read)
    else none
  | none =>
    if isHighSurrogate unit then some (.escape read (.pairSign unit))
    else (Text.charOf? unit).map fun c => .string (c :: read)

def stepEscape (read : List Char) (c : Char) : Escape → Option Mode
  | .sign =>
    if c = 'u' then some (.escape read (.digits 4 0 none))
    else (escaped? c).map fun d => .string (d :: read)
  | .digits more value high => do
    let d ← Text.digitValue? 16 c
    let value := value * 16 + d
    if more ≤ 1 then afterUnit read value high
    else some (.escape read (.digits (more - 1) value high))
  | .pairSign high => if c = '\\' then some (.escape read (.pairLetter high)) else none
  | .pairLetter high => if c = 'u' then some (.escape read (.digits 4 0 (some high))) else none

def step : Mode → Char → Option (List Token × Mode)
  | .between, c => some (start c)
  | .atom read, c =>
    if endsAtom c then some (.atom read.reverse :: (start c).1, (start c).2)
    else some ([], .atom (c :: read))
  | .string read, c =>
    if c = '\x22' then some ([.string read.reverse], .between)
    else if c = '\\' then some ([], .escape read .sign)
    else if c.toNat < 0x20 then none
    else some ([], .string (c :: read))
  | .escape read e, c => (stepEscape read c e).map ([], ·)

def finish : Mode → Option (List Token)
  | .between => some []
  | .atom read => some [.atom read.reverse]
  | .string _ | .escape _ _ => none

def scan : Mode → List Char → Option (List Token)
  | m, [] => finish m
  | m, c :: r => do
    let (ts, m) ← step m c
    return ts ++ (← scan m r)

def ofText? (s : String) : Option (List Token) :=
  scan .between s.toList

end Token

end RunLedger.Json
