import Provision.Decimal.Binary64
import Provision.Text.Numeral

/-!
# Reading a decimal fraction

A sign, digits with an optional point, and an optional exponent. At least one digit
stands before or after the point, and at least one in the exponent.
-/

namespace Provision.Decimal

open Provision.Text

/-- A decimal as written: its sign, its digits as one number, and the power of ten of the
last of them. -/
structure Written where
  negative : Bool
  significand : Nat
  exponent : Int
  deriving DecidableEq, Inhabited

/-- Splits off a leading sign. -/
def splitSign : List Char → Bool × List Char
  | '-' :: cs => (true, cs)
  | '+' :: cs => (false, cs)
  | cs => (false, cs)

/-- Reads what follows the mantissa: nothing, or an exponent. -/
def readExponent? : List Char → Option Int
  | [] => some 0
  | c :: cs =>
    if c = 'e' ∨ c = 'E' then
      let (negative, ds) := splitSign cs
      (readNat? 10 ds).map fun n => if negative then -(n : Int) else n
    else none

/-- Reads a decimal fraction. -/
def read? (cs : List Char) : Option Written :=
  let (negative, cs) := splitSign cs
  let whole := cs.takeWhile isDigit
  let rest := cs.dropWhile isDigit
  let (fraction, rest) :=
    match rest with
    | '.' :: tail => (tail.takeWhile isDigit, tail.dropWhile isDigit)
    | _ => ([], rest)
  (readNat? 10 (whole ++ fraction)).bind fun significand =>
    (readExponent? rest).map fun exponent =>
      { negative, significand, exponent := exponent - (fraction.length : Int) }

/-- The double nearest to a written decimal. -/
def Written.toBinary64 (w : Written) : Binary64 :=
  Binary64.ofDecimal w.negative w.significand w.exponent

end Provision.Decimal
