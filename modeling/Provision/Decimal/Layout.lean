import Provision.Decimal.Shortest
import Provision.Text.Numeral

/-!
# Writing a double

The shortest digits are written positionally when the decimal point falls near them,
and with an exponent otherwise.
-/

namespace Provision.Decimal

open Provision.Text

/-- The choices of a written form for doubles. -/
structure Layout where
  /-- The point is at least this many places after the first digit in positional form. -/
  minPoint : Int
  /-- The point is at most this many places after the first digit in positional form. -/
  maxPoint : Int
  /-- Whether a positive exponent carries a plus sign. -/
  plusSign : Bool
  /-- The text of the invalid number. -/
  nan : String
  /-- The text of the positive infinity. -/
  infinity : String
  /-- The text of the negative infinity. -/
  negativeInfinity : String

/-- Digits in positional form, always with a fraction. -/
def positional (ds : List Char) (exponent : Int) : List Char :=
  let point := (ds.length : Int) + exponent
  if 0 ≤ exponent then ds ++ List.replicate exponent.toNat '0' ++ ['.', '0']
  else if 0 < point then ds.take point.toNat ++ '.' :: ds.drop point.toNat
  else '0' :: '.' :: List.replicate (-point).toNat '0' ++ ds

/-- Digits with one of them before the point, and an exponent. -/
def scientific (plusSign : Bool) (ds : List Char) (exponent : Int) : List Char :=
  let power := (ds.length : Int) + exponent - 1
  let mantissa :=
    match ds with
    | d :: rest@(_ :: _) => d :: '.' :: rest
    | _ => ds
  let sign := if plusSign && 0 ≤ power then ['+'] else []
  mantissa ++ 'e' :: sign ++ intDigits power

/-- A finite number without its sign. -/
def Layout.magnitude (l : Layout) (d : Digits) : List Char :=
  let ds := natDigits d.significand
  let point := (ds.length : Int) + d.exponent
  if l.minPoint ≤ point ∧ point ≤ l.maxPoint then positional ds d.exponent
  else scientific l.plusSign ds d.exponent

/-- The characters of a double. -/
def Layout.chars (l : Layout) : Binary64 → List Char
  | .nan => l.nan.toList
  | .infinite negative => (if negative then l.negativeInfinity else l.infinity).toList
  | .finite negative m e =>
    (if negative then ['-'] else []) ++ l.magnitude (shortest m e)

end Provision.Decimal
