import RunLedger.Toml.Value
/-
What is written without quotes and brackets: booleans, integers, floats and moments. The first of
several digits before a point is not zero, and an underscore stands between two digits or between
the sign and a digit. Of an integer, reading asks only what it takes to tell it from other scalars;
whether its text is a number, and whether a number is in range, are questions of its value.
-/

set_option autoImplicit false

namespace RunLedger.Toml

open Text

inductive Scalar where
  | boolean (b : Bool)
  /-- an integer's sign and digits, without its underscores -/
  | integer (base : Nat) (text : List Char)
  /-- a number with a fraction, an exponent or both: `digits * 10 ^ exponent` -/
  | decimal (negative : Bool) (digits : Nat) (exponent : Int)
  /-- a float that is written as a word -/
  | word (x : Binary64)
  | moment (m : Moment)
  deriving DecidableEq, Repr

namespace Scalar

/-- Whether each underscore has a digit on both sides, where one at the beginning needs none in
front if `behind` holds. -/
def isSpacedFrom (base : Nat) (behind : Bool) : List Char → Bool
  | [] => true
  | '_' :: r => behind && r.head?.any (isDigit base) && isSpacedFrom base false r
  | c :: r => isSpacedFrom base (isDigit base c) r

/-- Whether each underscore of a number is where one may be. -/
def isSpaced (base : Nat) (cs : List Char) : Bool :=
  let ds := (splitSign cs).2
  isSpacedFrom base (ds.length != cs.length) ds

/-- Whether there are digits, and nothing else but underscores. -/
def isDigits (base : Nat) (cs : List Char) : Bool :=
  cs.any (isDigit base) && cs.all fun c => isDigit base c || c == '_'

/-- A zero in front stands alone. -/
def isWhole (cs : List Char) : Bool :=
  cs.length = 1 || cs.head? != some '0'

/-- An integer behind the sign of its base, which may have no digits at all. -/
def ofRadix? (base : Nat) (cs : List Char) : Option Scalar :=
  if cs = [] ∨ (isDigits base cs ∧ isSpacedFrom base false cs) then
    some (.integer base (cs.filter (· != '_')))
  else none

/-- What makes a text a float, or no number at all, where it stands behind the first digits. -/
def endsInteger (c : Char) : Bool :=
  c ∈ ['.', 'e', 'E', ' ']

/-- Decimal digits make an integer, up to its end or its first underscore. What follows that is not
looked at, but for the places of underscores: they stand between digits of any base. -/
def integer? : List Char → Option Scalar
  | '0' :: 'x' :: r => ofRadix? 16 r
  | '0' :: 'o' :: r => ofRadix? 8 r
  | '0' :: 'b' :: r => ofRadix? 2 r
  | cs =>
    let ds := (splitSign cs).2
    let rest := ds.dropWhile (isDigit 10)
    if ds ≠ [] ∧ isWhole ds ∧ rest.head?.all (· == '_') ∧ ¬ rest.any endsInteger ∧
        isSpaced 16 cs then
      some (.integer 10 (cs.filter (· != '_')))
    else none

def exponent? (cs : List Char) : Option Int :=
  let (negative, ds) := splitSign cs
  if isDigits 10 ds then some (if negative then -(natural 10 ds : Int) else natural 10 ds) else none

def decimal? (cs : List Char) : Option Scalar := do
  let (negative, ds) := splitSign cs
  let (whole, fraction, exponent) := numberParts ds
  let e ← match exponent with
    | none => some 0
    | some ds => exponent? ds
  let fractionDigits := fraction.getD []
  if isDigits 10 whole ∧ isWhole whole ∧ (fraction = none ∨ isDigits 10 fractionDigits) ∧
      (fraction ≠ none ∨ exponent ≠ none) ∧ isSpaced 10 cs then
    let places := (fractionDigits.filter (isDigit 10)).length
    some (.decimal negative (natural 10 (whole ++ fractionDigits)) (e - places))
  else none

def float? (cs : List Char) : Option Scalar :=
  let (negative, ds) := splitSign cs
  if ds = ['i', 'n', 'f'] then some (.word (.infinite negative))
  else if ds = ['n', 'a', 'n'] then some (.word .nan)
  else decimal? cs

def boolean? (cs : List Char) : Option Scalar :=
  if cs = ['t', 'r', 'u', 'e'] then some (.boolean true)
  else if cs = ['f', 'a', 'l', 's', 'e'] then some (.boolean false)
  else none

/-- No text is of two of the kinds, so their order is free. -/
def read? (cs : List Char) : Option Scalar :=
  boolean? cs <|> integer? cs <|> float? cs <|> (Moment.read? cs).map .moment

/-- The integer that a sign and digits spell. It has to fit 64 bits with a sign. -/
def integerOf? (base : Nat) (cs : List Char) : Option Int :=
  let (negative, ds) := splitSign cs
  let i : Int := if negative then -(natural base ds : Int) else natural base ds
  if ds ≠ [] ∧ ds.all (isDigit base) ∧
      -9223372036854775808 ≤ i ∧ i ≤ 9223372036854775807 then
    some i
  else none

/-- The value of a scalar. A decimal must not round to infinity. -/
def value? : Scalar → Option Value
  | .boolean b => some (.boolean b)
  | .integer base text => (integerOf? base text).map .integer
  | .decimal negative digits exponent =>
    let x := Binary64.ofDecimal negative digits exponent
    if x.isInfinite then none else some (.float x)
  | .word x => some (.float x)
  | .moment m => some (.moment m)

end Scalar

end RunLedger.Toml
