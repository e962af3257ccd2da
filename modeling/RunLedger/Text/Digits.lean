set_option autoImplicit false

namespace RunLedger.Text

/-- What a character counts for as a digit, with letters in either case. -/
def digitValue? (base : Nat) (c : Char) : Option Nat :=
  let n := c.toNat
  let value :=
    if 0x30 ≤ n ∧ n ≤ 0x39 then n - 0x30
    else if 0x41 ≤ n ∧ n ≤ 0x46 then n - 0x37
    else if 0x61 ≤ n ∧ n ≤ 0x66 then n - 0x57
    else base
  if value < base then some value else none

def isDigit (base : Nat) (c : Char) : Bool :=
  (digitValue? base c).isSome

/-- The natural that the digits spell after those that spell `start`; other characters count
for nothing. -/
def naturalFrom (base start : Nat) (cs : List Char) : Nat :=
  cs.foldl (fun n c => match digitValue? base c with | some d => n * base + d | none => n) start

/-- A natural that takes up digits: `high * scale + low`. The latest digits are kept apart, so that
a step is on small numbers mostly. -/
structure Spelled where
  high : Nat
  low : Nat
  scale : Nat

namespace Spelled

def value (s : Spelled) : Nat :=
  s.high * s.scale + s.low

/-- From here on the digits apart are put to the others. -/
def scaleBound : Nat := Nat.pow 2 240

def push (base : Nat) (s : Spelled) (digit : Nat) : Spelled :=
  if s.scale * base < scaleBound then ⟨s.high, s.low * base + digit, s.scale * base⟩
  else ⟨s.high * (s.scale * base) + (s.low * base + digit), 0, 1⟩

/-- Takes up a character if it is a digit. -/
def take (base : Nat) (s : Spelled) (c : Char) : Spelled :=
  match digitValue? base c with
  | some d => s.push base d
  | none => s

end Spelled

/-- The natural that the digits spell. -/
def natural (base : Nat) (cs : List Char) : Nat :=
  (cs.foldl (Spelled.take base) ⟨0, 0, 1⟩).value

/-- A sign, if there is one: whether it is a minus, and the rest. -/
def splitSign : List Char → Bool × List Char
  | '-' :: r => (true, r)
  | '+' :: r => (false, r)
  | r => (false, r)

/-- The characters before the first one that fulfils `p`, and those behind it, if there is one. -/
def cut (p : Char → Bool) (cs : List Char) : List Char × Option (List Char) :=
  (cs.takeWhile (!p ·), (cs.dropWhile (!p ·)).tail?)

/-- The parts of a written number: whole part, fraction and exponent. -/
def numberParts (cs : List Char) : List Char × Option (List Char) × Option (List Char) :=
  let (mantissa, exponent) := cut (fun c => c == 'e' || c == 'E') cs
  let (whole, fraction) := cut (· == '.') mantissa
  (whole, fraction, exponent)

/-- Digits of a natural, filled up with zeros to a width. -/
def padded (width n : Nat) : List Char :=
  let ds := Nat.toDigits 10 n
  List.replicate (width - ds.length) '0' ++ ds

/-- The character of a code point, if there is one: not for surrogates. -/
def charOf? (n : Nat) : Option Char :=
  if n.isValidChar then some (Char.ofNat n) else none

end RunLedger.Text
