import RunLedger.Toml.Value

set_option autoImplicit false

namespace RunLedger.Toml.Printer

/-- Control characters that have to be escaped. Line feeds are told apart, and tabs go unescaped
between literal quotes. -/
def isControl (c : Char) : Bool :=
  (c.toNat < 0x20 && c != '\t' && c != '\n') || c.toNat = 0x7F

/-- The length of the longest run of a character. -/
def longestRun (c : Char) (cs : List Char) : Nat :=
  (cs.foldl (fun (best, now) d => if d = c then (max best (now + 1), now + 1) else (best, 0))
    (0, 0)).1

structure Shape where
  controls : Bool
  lines : Bool
  backslashes : Bool
  basicRun : Nat
  literalRun : Nat

def Shape.of (cs : List Char) : Shape :=
  ⟨cs.any isControl, cs.contains '\n', cs.contains '\\', longestRun '\x22' cs,
    longestRun '\x27' cs⟩

/-- Basic quotes need no escapes. -/
def Shape.isBasic (s : Shape) : Bool :=
  !s.controls && !s.lines && !s.backslashes && s.basicRun = 0

def Shape.isLiteral (s : Shape) : Bool :=
  !s.controls && !s.lines && s.literalRun = 0

def Shape.isBasicBlock (s : Shape) : Bool :=
  !s.controls && !s.backslashes && s.basicRun < 3

def Shape.isLiteralBlock (s : Shape) : Bool :=
  !s.controls && s.literalRun < 3

def hexDigit (n : Nat) : Char :=
  Char.ofNat (if n < 10 then 0x30 + n else 0x37 + n)

/-- The escape of a character that cannot stand for itself. -/
def escape (c : Char) : List Char :=
  match c with
  | '\x08' => ['\\', 'b']
  | '\t' => ['\\', 't']
  | '\n' => ['\\', 'n']
  | '\x0c' => ['\\', 'f']
  | '\r' => ['\\', 'r']
  | '\x22' => ['\\', '\x22']
  | '\\' => ['\\', '\\']
  | c =>
    if isControl c then ['\\', 'u', '0', '0', hexDigit (c.toNat / 16), hexDigit (c.toNat % 16)]
    else [c]

/-- The inside of a text between basic quotes, after some quotes in a row. If it is a block, line
feeds stand for themselves, and so do two quotes in a row. -/
def basic (block : Bool) : Nat → List Char → List Char
  | _, [] => []
  | quotes, c :: r =>
    if block ∧ c = '\n' then c :: basic block 0 r
    else if block ∧ c = '\x22' ∧ quotes < 2 then c :: basic block (quotes + 1) r
    else escape c ++ basic block 0 r

def quoted (sign : Char) (inside : List Char) : List Char :=
  sign :: inside ++ [sign]

/-- Threefold quotes. A text that has several lines begins on a line of its own. -/
def block (sign : Char) (lines : Bool) (inside : List Char) : List Char :=
  [sign, sign, sign] ++ (if lines then ['\n'] else []) ++ inside ++ [sign, sign, sign]

def string (cs : List Char) : List Char :=
  let s := Shape.of cs
  if s.isBasic then quoted '\x22' (basic false 0 cs)
  else if s.isLiteral then quoted '\x27' cs
  else if s.isBasicBlock then block '\x22' s.lines (basic true 0 cs)
  else if s.isLiteralBlock then block '\x27' s.lines cs
  else if s.lines then block '\x22' s.lines (basic true 0 cs)
  else quoted '\x22' (basic false 0 cs)

def key (cs : List Char) : List Char :=
  let s := Shape.of cs
  if isBareKey cs then cs
  else if s.isBasic then quoted '\x22' (basic false 0 cs)
  else if s.isLiteral then quoted '\x27' cs
  else quoted '\x22' (basic false 0 cs)

mutual

def value : Value → List Char
  | .string s => string s.toList
  | .integer i => (toString i).toList
  | .float x => x.render.toList
  | .boolean b => if b then ['t', 'r', 'u', 'e'] else ['f', 'a', 'l', 's', 'e']
  | .moment m => m.chars
  | .array [] => ['[', ']']
  | .array (v :: vs) => '[' :: value v ++ items vs ++ [']']
  | .table [] => ['\x7b', '\x7d']
  | .table ((k, v) :: es) =>
    ['\x7b', ' '] ++ key k.toList ++ [' ', '=', ' '] ++ value v ++ members es ++ [' ', '\x7d']

def items : List Value → List Char
  | [] => []
  | v :: vs => [',', ' '] ++ value v ++ items vs

def members : List (String × Value) → List Char
  | [] => []
  | (k, v) :: es => [',', ' '] ++ key k.toList ++ [' ', '=', ' '] ++ value v ++ members es

end

end Printer

/-- The text of a value as it stands in a document. -/
def Value.render (v : Value) : String :=
  String.ofList (Printer.value v)

end RunLedger.Toml
