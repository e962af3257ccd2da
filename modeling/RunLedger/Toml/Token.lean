import RunLedger.Text.Digits
/-
The tokens of a TOML document. A document is read one character at a time by a machine with finitely
many modes, which keep what is read of an unfinished token. Escapes in texts are resolved; comments
are checked and dropped; blanks are kept, because a date and a time may stand one blank apart.
-/

set_option autoImplicit false

namespace RunLedger.Toml

inductive Token where
  | newline
  | dot
  | equals
  | comma
  | openBracket
  | closeBracket
  | openBrace
  | closeBrace
  /-- spaces and tabs -/
  | blank (cs : List Char)
  /-- a quoted text, and whether its quotes were threefold -/
  | text (cs : List Char) (threefold : Bool)
  /-- a run of any other characters -/
  | atom (cs : List Char)
  deriving DecidableEq, Repr

namespace Token

inductive Quote where
  | basic
  | literal
  deriving DecidableEq, Repr

def Quote.sign : Quote → Char
  | basic => '\x22'
  | literal => '\x27'

/-- A text that is not finished, with the last character read first. -/
structure Quoted where
  quote : Quote
  threefold : Bool
  read : List Char
  deriving DecidableEq, Repr

def Quoted.push (t : Quoted) (c : Char) : Quoted :=
  { t with read := c :: t.read }

/-- What follows a backslash. -/
inductive Escape where
  /-- the backslash was read last -/
  | sign
  /-- some digits of a code point are still to be read -/
  | digits (more : Nat) (value : Nat)
  /-- blanks after the backslash, where a line has to end -/
  | lineEnd
  /-- the line ended; blanks and further line ends are left out -/
  | indent
  deriving DecidableEq, Repr

inductive Mode where
  | between
  | blank (read : List Char)
  | atom (read : List Char)
  | comment
  /-- one or two quotes that may open a text -/
  | opening (q : Quote) (two : Bool)
  /-- three quotes were read last; a line end here is left out -/
  | fresh (q : Quote)
  | inside (t : Quoted)
  /-- quotes that may close a threefold text -/
  | closing (t : Quoted) (quotes : Nat)
  | escape (t : Quoted) (e : Escape)
  deriving DecidableEq, Repr

/-- Begins a token. -/
def start : Char → List Token × Mode
  | '\n' => ([.newline], .between)
  | '\r' => ([], .between)
  | ' ' => ([], .blank [' '])
  | '\t' => ([], .blank ['\t'])
  | '#' => ([], .comment)
  | '.' => ([.dot], .between)
  | '=' => ([.equals], .between)
  | ',' => ([.comma], .between)
  | '[' => ([.openBracket], .between)
  | ']' => ([.closeBracket], .between)
  | '\x7b' => ([.openBrace], .between)
  | '\x7d' => ([.closeBrace], .between)
  | '\x22' => ([], .opening .basic false)
  | '\x27' => ([], .opening .literal false)
  | c => ([], .atom [c])

/-- Characters that end an atom. Quotes do not. -/
def endsAtom (c : Char) : Bool :=
  c ∈ ['\n', '\r', ' ', '\t', '#', '.', '=', ',', '[', ']', '\x7b', '\x7d']

/-- Finishes a token and begins the next one. -/
def andStart (t : Token) (c : Char) : List Token × Mode :=
  (t :: (start c).1, (start c).2)

/-- Tabs and what is no control character may stand in comments and texts. -/
def isPlain (c : Char) : Bool :=
  c = '\t' || (0x20 ≤ c.toNat && c.toNat != 0x7F)

def finished (t : Quoted) : Token :=
  .text t.read.reverse t.threefold

def Quoted.pushQuotes (t : Quoted) (count : Nat) : Quoted :=
  { t with read := List.replicate count t.quote.sign ++ t.read }

/-- A character of a text. Only threefold texts go over lines. -/
def within (t : Quoted) (c : Char) : Option (List Token × Mode) :=
  if c = t.quote.sign then
    if t.threefold then some ([], .closing t 1) else some ([finished t], .between)
  else if c = '\\' ∧ t.quote = .basic then some ([], .escape t .sign)
  else if isPlain c ∨ ((c = '\n' ∨ c = '\r') ∧ t.threefold) then some ([], .inside (t.push c))
  else none

/-- How many digits of a code point follow the letter of an escape. -/
def codeLength? (c : Char) : Option Nat :=
  if c = 'x' then some 2 else if c = 'u' then some 4 else if c = 'U' then some 8 else none

/-- The character for the letter of an escape. -/
def escaped? : Char → Option Char
  | 'b' => some '\x08'
  | 't' => some '\t'
  | 'n' => some '\n'
  | 'f' => some '\x0c'
  | 'r' => some '\r'
  | 'e' => some '\x1b'
  | '\x22' => some '\x22'
  | '\\' => some '\\'
  | _ => none

def afterBackslash (t : Quoted) (c : Char) : Option Mode :=
  match codeLength? c, escaped? c with
  | some n, _ => some (.escape t (.digits n 0))
  | none, some d => some (.inside (t.push d))
  | none, none =>
    if ¬ t.threefold then none
    else if c = '\n' then some (.escape t .indent)
    else if c = ' ' ∨ c = '\t' ∨ c = '\r' then some (.escape t .lineEnd)
    else none

def afterDigit (t : Quoted) (more value : Nat) (c : Char) : Option Mode := do
  let d ← Text.digitValue? 16 c
  let value := value * 16 + d
  if more ≤ 1 then pure (.inside (t.push (← Text.charOf? value)))
  else pure (.escape t (.digits (more - 1) value))

def step : Mode → Char → Option (List Token × Mode)
  | .between, c => some (start c)
  | .blank read, c =>
    if c = ' ' ∨ c = '\t' then some ([], .blank (c :: read))
    else some (andStart (.blank read.reverse) c)
  | .atom read, c =>
    if endsAtom c then some (andStart (.atom read.reverse) c) else some ([], .atom (c :: read))
  | .comment, c =>
    if c = '\n' then some ([.newline], .between)
    else if isPlain c ∨ c = '\r' then some ([], .comment)
    else none
  | .opening q false, c =>
    if c = q.sign then some ([], .opening q true) else within ⟨q, false, []⟩ c
  | .opening q true, c =>
    if c = q.sign then some ([], .fresh q) else some (andStart (.text [] false) c)
  | .fresh q, c =>
    if c = '\n' then some ([], .inside ⟨q, true, []⟩)
    else if c = '\r' then some ([], .fresh q)
    else within ⟨q, true, []⟩ c
  | .inside t, c => within t c
  | .closing t quotes, c =>
    if c = t.quote.sign then
      if quotes < 4 then some ([], .closing t (quotes + 1))
      else some ([finished (t.pushQuotes 2)], .between)
    else if quotes < 3 then within (t.pushQuotes quotes) c
    else some (andStart (finished (t.pushQuotes (quotes - 3))) c)
  | .escape t .sign, c => (afterBackslash t c).map ([], ·)
  | .escape t (.digits more value), c => (afterDigit t more value c).map ([], ·)
  | .escape t .lineEnd, c =>
    if c = '\n' then some ([], .escape t .indent)
    else if c = ' ' ∨ c = '\t' ∨ c = '\r' then some ([], .escape t .lineEnd)
    else none
  | .escape t .indent, c =>
    if c = ' ' ∨ c = '\t' ∨ c = '\r' ∨ c = '\n' then some ([], .escape t .indent)
    else within t c

/-- The tokens that the end of the document finishes. -/
def finish : Mode → Option (List Token)
  | .between | .comment => some []
  | .blank read => some [.blank read.reverse]
  | .atom read => some [.atom read.reverse]
  | .opening _ true => some [.text [] false]
  | .closing t quotes => if quotes < 3 then none else some [finished (t.pushQuotes (quotes - 3))]
  | .opening _ false | .fresh _ | .inside _ | .escape _ _ => none

def scan : Mode → List Char → Option (List Token)
  | m, [] => finish m
  | m, c :: r => do
    let (ts, m) ← step m c
    return ts ++ (← scan m r)

/-- A carriage return stands only in front of a line feed. -/
def returnsPaired : List Char → Bool
  | [] => true
  | '\r' :: r => r.head? = some '\n' && returnsPaired r
  | _ :: r => returnsPaired r

/-- The tokens of a document, without the mark of the byte order in front of it. -/
def ofText? (s : String) : Option (List Token) :=
  let cs := match s.toList with
    | '\uFEFF' :: r => r
    | cs => cs
  if returnsPaired cs then scan .between cs else none

end Token

end RunLedger.Toml
