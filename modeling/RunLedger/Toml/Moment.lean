import RunLedger.Text.Digits

set_option autoImplicit false

namespace RunLedger.Toml

structure Date where
  year : Nat
  month : Nat
  day : Nat
  deriving DecidableEq, Repr

structure Seconds where
  whole : Nat
  nanoseconds : Option Nat
  deriving DecidableEq, Repr

structure Time where
  hour : Nat
  minute : Nat
  seconds : Option Seconds
  deriving DecidableEq, Repr

/-- The difference to universal time. That it is the same time is not an offset of no minutes. -/
inductive Offset where
  | universal
  | minutes (m : Int)
  deriving DecidableEq, Repr

inductive Moment where
  | date (d : Date)
  | time (t : Time)
  | dateTime (d : Date) (t : Time) (offset : Option Offset)
  deriving DecidableEq, Repr

open Text

namespace Date

def isLeap (year : Nat) : Bool :=
  year % 4 = 0 && (year % 100 != 0 || year % 400 = 0)

def daysIn (year month : Nat) : Nat :=
  if month = 2 then (if isLeap year then 29 else 28)
  else if month ∈ [4, 6, 9, 11] then 30
  else 31

def isValid (d : Date) : Bool :=
  1 ≤ d.month && d.month ≤ 12 && 1 ≤ d.day && d.day ≤ daysIn d.year d.month

end Date

/-- Seconds may be 60, for a leap second. -/
def Time.isValid (t : Time) : Bool :=
  t.hour ≤ 23 && t.minute ≤ 59 &&
    match t.seconds with
    | none => true
    | some s => s.whole ≤ 60

/-- Reads exactly `count` digits. -/
def digits? (count : Nat) (cs : List Char) : Option (Nat × List Char) :=
  let ds := cs.take count
  if ds.length = count ∧ ds.all (isDigit 10) then some (natural 10 ds, cs.drop count) else none

/-- Reads the given character. -/
def sign? (c : Char) : List Char → Option (List Char)
  | [] => none
  | d :: r => if d = c then some r else none

def Date.read? (cs : List Char) : Option (Date × List Char) := do
  let (year, cs) ← digits? 4 cs
  let cs ← sign? '-' cs
  let (month, cs) ← digits? 2 cs
  let cs ← sign? '-' cs
  let (day, cs) ← digits? 2 cs
  let d : Date := ⟨year, month, day⟩
  if d.isValid then some (d, cs) else none

/-- Reads the fraction of a second behind its point. What is smaller than a nanosecond is cut. -/
def nanoseconds? (cs : List Char) : Option (Nat × List Char) :=
  let ds := cs.takeWhile (isDigit 10)
  if ds = [] then none
  else some (natural 10 ((ds ++ List.replicate 9 '0').take 9), cs.dropWhile (isDigit 10))

def seconds? : List Char → Option (Option Seconds × List Char)
  | ':' :: cs => do
    let (whole, cs) ← digits? 2 cs
    match cs with
    | '.' :: cs => (nanoseconds? cs).map fun (n, cs) => (some ⟨whole, some n⟩, cs)
    | cs => some (some ⟨whole, none⟩, cs)
  | cs => some (none, cs)

def Time.read? (cs : List Char) : Option (Time × List Char) := do
  let (hour, cs) ← digits? 2 cs
  let cs ← sign? ':' cs
  let (minute, cs) ← digits? 2 cs
  let (seconds, cs) ← seconds? cs
  let t : Time := ⟨hour, minute, seconds⟩
  if t.isValid then some (t, cs) else none

/-- Reads an offset that ends the text. None is as much as a day. -/
def Offset.read? : List Char → Option Offset
  | ['Z'] | ['z'] => some .universal
  | c :: cs => do
    let (hours, cs) ← digits? 2 cs
    let cs ← sign? ':' cs
    let (rest, cs) ← digits? 2 cs
    let total := hours * 60 + rest
    if cs ≠ [] ∨ 23 < hours ∨ 59 < rest then none
    else if c = '+' then some (.minutes total)
    else if c = '-' then some (.minutes (-total))
    else none
  | [] => none

namespace Moment

def ofDate? (d : Date) : List Char → Option Moment
  | [] => some (.date d)
  | c :: cs =>
    if c = 'T' ∨ c = 't' ∨ c = ' ' then do
      let (t, cs) ← Time.read? cs
      if cs = [] then some (.dateTime d t none)
      else (Offset.read? cs).map fun o => .dateTime d t (some o)
    else none

def read? (cs : List Char) : Option Moment :=
  match Date.read? cs with
  | some (d, cs) => ofDate? d cs
  | none =>
    match Time.read? cs with
    | some (t, []) => some (.time t)
    | _ => none

end Moment

def Date.chars (d : Date) : List Char :=
  padded 4 d.year ++ '-' :: padded 2 d.month ++ '-' :: padded 2 d.day

/-- A fraction without the zeros at its end, but with one digit at least. -/
def fractionChars (nanoseconds : Nat) : List Char :=
  match ((padded 9 nanoseconds).reverse.dropWhile (· == '0')).reverse with
  | [] => ['0']
  | ds => ds

def Seconds.chars (s : Seconds) : List Char :=
  padded 2 s.whole ++
    match s.nanoseconds with
    | none => []
    | some n => '.' :: fractionChars n

def Time.chars (t : Time) : List Char :=
  padded 2 t.hour ++ ':' :: padded 2 t.minute ++
    match t.seconds with
    | none => []
    | some s => ':' :: s.chars

def Offset.chars : Offset → List Char
  | .universal => ['Z']
  | .minutes m =>
    (if m < 0 then '-' else '+') :: padded 2 (m.natAbs / 60) ++ ':' :: padded 2 (m.natAbs % 60)

def Moment.chars : Moment → List Char
  | .date d => d.chars
  | .time t => t.chars
  | .dateTime d t offset =>
    d.chars ++ 'T' :: t.chars ++
      match offset with
      | none => []
      | some o => o.chars

end RunLedger.Toml
