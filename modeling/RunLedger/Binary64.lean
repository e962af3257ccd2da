/-
Floating point numbers of 64 bits, held as what they denote: a sign and `mantissa * 2 ^ exponent`.
A quotient of naturals is rounded to the nearest number, of two nearest ones to the one with the
even mantissa. A number is shown with the fewest digits that round to it, without an exponent.
-/

set_option autoImplicit false

namespace RunLedger

/-- A finite number has a mantissa below `2 ^ 53` and an exponent of at least -1074; unless that
is its exponent, its mantissa is at least `2 ^ 52`. -/
inductive Binary64 where
  | finite (negative : Bool) (mantissa : Nat) (exponent : Int)
  | infinite (negative : Bool)
  | nan
  deriving DecidableEq, Repr

namespace Binary64

def leastExponent : Int := -1074

def greatestExponent : Int := 971

/-- Mantissas are below this bound, and from half of it on unless the exponent is the least. -/
def mantissaBound : Nat := Nat.pow 2 53

/-- A power with any exponent, as numerator and denominator. -/
def power (base : Nat) (e : Int) : Nat × Nat :=
  if 0 ≤ e then (Nat.pow base e.toNat, 1) else (1, Nat.pow base (-e).toNat)

/-- Division to the nearest natural, of two nearest ones to the even one. -/
def divideToEven (num den : Nat) : Nat :=
  let q := num / den
  let twice := 2 * (num % den)
  if twice < den ∨ (twice = den ∧ q % 2 = 0) then q else q + 1

/-- The exponent at which a positive quotient has 53 binary digits before its point, or the least
one if that is too small. -/
def exponentOf (num den : Nat) : Int :=
  let e := max leastExponent ((Nat.log2 num : Int) - Nat.log2 den - 53)
  let (p, q) := power 2 e
  if num * q < den * p * mantissaBound then e else e + 1

/-- Rounds the quotient `num / den` of naturals, where `den` is not zero. -/
def ofQuotient (negative : Bool) (num den : Nat) : Binary64 :=
  if num = 0 then .finite negative 0 leastExponent
  else
    let e := exponentOf num den
    let (p, q) := power 2 e
    let m := divideToEven (num * q) (den * p)
    let (m, e) := if m = mantissaBound then (mantissaBound / 2, e + 1) else (m, e)
    if greatestExponent < e then .infinite negative else .finite negative m e

/-- Rounds `digits * 10 ^ exponent`. Powers of ten that are out of reach are not computed: from
`10 ^ 310` on all is infinite, and below `2 ^ (-1076)` all is zero. -/
def ofDecimal (negative : Bool) (digits : Nat) (exponent : Int) : Binary64 :=
  if digits = 0 then .finite negative 0 leastExponent
  else if 310 < exponent then .infinite negative
  else if (Nat.log2 digits : Int) + 1 + 3 * min exponent 0 < -1076 then
    .finite negative 0 leastExponent
  else
    let (p, q) := power 10 exponent
    ofQuotient negative (digits * p) q

/-- The product, rounded once. -/
def mul : Binary64 → Binary64 → Binary64
  | .finite s m e, .finite t n f =>
    let (p, q) := power 2 (e + f)
    ofQuotient (s != t) (m * n * p) q
  | .nan, _ | _, .nan => .nan
  | .infinite s, .infinite t => .infinite (s != t)
  | .infinite s, .finite t m _ | .finite s m _, .infinite t =>
    if m = 0 then .nan else .infinite (s != t)

def isInfinite : Binary64 → Bool
  | .infinite _ => true
  | _ => false

/-- The multiple of `10 ^ place` that is nearest to `m * 2 ^ e`, if it rounds to that number; from
the middle between two it is the greater one. What rounds to the number lies between the middles to
its two neighbours, which count if its mantissa is even. Lengths are in quarters of `2 ^ e`. -/
def nearestAt (m : Nat) (e place : Int) : Option Nat :=
  let (quarter, parts) := power 2 (e - 2)
  let (step, pieces) := power 10 place
  let a := step * parts
  let b := quarter * pieces
  let value := 4 * m * b
  let low := (if m = mantissaBound / 2 ∧ leastExponent < e then 4 * m - 1 else 4 * m - 2) * b
  let high := (4 * m + 2) * b
  let k := value / a
  let isClosed := m % 2 = 0
  let below := low < k * a ∨ (isClosed ∧ low = k * a)
  let above := (k + 1) * a < high ∨ (isClosed ∧ (k + 1) * a = high)
  if below ∧ (¬ above ∨ 2 * (value - k * a) < a) then some k
  else if above then some (k + 1)
  else none

/-- The places where the last digit of `m * 2 ^ e` can be, the highest first. The first one is above
all digits: three tenths of the binary digits are about the decimal ones. Seventeen digits from the
first that is not zero are enough. -/
def places (m : Nat) (e : Int) : List Int :=
  let top := ((Nat.log2 m : Int) + 1 + e) * 30103 / 100000 + 2
  (List.range 20).map fun (i : Nat) => top - Int.ofNat i

/-- The fewest digits that round to `m * 2 ^ e`, and the place of the last one. -/
def shortest (m : Nat) (e : Int) : Nat × Int :=
  ((places m e).findSome? fun place => (nearestAt m e place).map (·, place)).getD (m, e)

/-- Digits with the point at a place, and always with a digit on both sides of it. -/
def positional (digits : Nat) (place : Int) : List Char :=
  let ds := Nat.toDigits 10 digits
  if 0 ≤ place then ds ++ List.replicate place.toNat '0' ++ ['.', '0']
  else
    let after := (-place).toNat
    let ds := List.replicate (after + 1 - ds.length) '0' ++ ds
    ds.take (ds.length - after) ++ '.' :: ds.drop (ds.length - after)

def sign (negative : Bool) : List Char :=
  if negative then ['-'] else []

def render : Binary64 → String
  | .nan => "nan"
  | .infinite negative => String.ofList (sign negative ++ ['i', 'n', 'f'])
  | .finite negative m e =>
    let (digits, place) := if m = 0 then (0, 0) else shortest m e
    String.ofList (sign negative ++ positional digits place)

end Binary64

end RunLedger
