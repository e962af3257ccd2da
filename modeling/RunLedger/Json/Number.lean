import RunLedger.Binary64
import RunLedger.Text.Digits
/-
Numbers of a JSON text. A number is well formed by its digits alone, but it is refused if the
floating point number nearest to it would be infinite. The test goes by the first digits that fit
64 bits; further ones before the point only count, and further ones behind it are left out.
-/

set_option autoImplicit false

namespace RunLedger.Json

open Text

/-- The parts of a number as written. The fraction and the exponent may be missing. -/
structure Number where
  negative : Bool
  whole : List Char
  fraction : Option (List Char)
  exponent : Option (Bool × List Char)
  deriving DecidableEq, Repr

namespace Number

def isDigits (cs : List Char) : Bool :=
  !cs.isEmpty && cs.all (isDigit 10)

/-- Digits before the point: a zero alone, or no zero in front. -/
def isWhole (cs : List Char) : Bool :=
  isDigits cs && (cs.length = 1 || cs.head? != some '0')

def isWellFormed (n : Number) : Bool :=
  isWhole n.whole && n.fraction.all isDigits && n.exponent.all fun e => isDigits e.2

def ofUnsigned (negative : Bool) (cs : List Char) : Number :=
  let (whole, fraction, exponent) := numberParts cs
  ⟨negative, whole, fraction, exponent.map splitSign⟩

def ofChars : List Char → Number
  | '-' :: r => ofUnsigned true r
  | r => ofUnsigned false r

/-- A significand and the power of ten that goes with it, while digits are taken up. -/
structure Scaled where
  significand : Nat
  exponent : Int
  full : Bool

/-- The greatest significand. -/
def significandBound : Nat := 18446744073709551615

def Scaled.takeWhole (s : Scaled) (c : Char) : Scaled :=
  let n := naturalFrom 10 s.significand [c]
  if s.full ∨ significandBound < n then { s with exponent := s.exponent + 1, full := true }
  else { s with significand := n }

def Scaled.takeFraction (s : Scaled) (c : Char) : Scaled :=
  let n := naturalFrom 10 s.significand [c]
  if s.full ∨ significandBound < n then { s with full := true }
  else { s with significand := n, exponent := s.exponent - 1 }

def exponentValue (n : Number) : Int :=
  match n.exponent with
  | none => 0
  | some (negative, ds) => if negative then -(natural 10 ds : Int) else natural 10 ds

def scaled (n : Number) : Scaled :=
  let s := n.whole.foldl Scaled.takeWhole ⟨0, 0, false⟩
  let s := (n.fraction.getD []).foldl Scaled.takeFraction { s with full := false }
  { s with exponent := s.exponent + n.exponentValue }

/-- The greatest power of ten that is finite. -/
def greatestPower : Int := 308

def isInRange (n : Number) : Bool :=
  let s := n.scaled
  s.significand = 0 || s.exponent ≤ 0 ||
    (s.exponent ≤ greatestPower &&
      !((Binary64.ofQuotient false s.significand 1).mul
        (Binary64.ofDecimal false 1 s.exponent)).isInfinite)

def read? (cs : List Char) : Option Number :=
  let n := ofChars cs
  if n.isWellFormed ∧ n.isInRange then some n else none

end Number

end RunLedger.Json
