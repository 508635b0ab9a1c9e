import Provision.Decimal.Reading

/-!
# Numbers in JSON documents

A number has a minus sign or none, digits without leading zeros, and after them a
fraction, an exponent, both or neither.
-/

namespace Provision.Json

open Provision.Text

/-- The parts of a number as it is written. -/
structure Numeral where
  negative : Bool
  /-- The digits before the point. -/
  whole : List Char
  /-- The digits after the point. -/
  fraction : List Char
  /-- The power of ten. -/
  exponent : Int
  /-- Whether neither a fraction nor an exponent is written. -/
  plain : Bool
  deriving DecidableEq, Inhabited

/-- Whether digits may stand before the point. -/
def isWhole (cs : List Char) : Bool := cs == ['0'] || !(cs.isEmpty || cs.head? == some '0')

/-- The parts of a number. -/
def Numeral.ofChars? (cs : List Char) : Option Numeral := do
  let (negative, cs) :=
    match cs with
    | '-' :: rest => (true, rest)
    | _ => (false, cs)
  let whole := cs.takeWhile isDigit
  if !isWhole whole then none
  match cs.dropWhile isDigit with
  | '.' :: rest =>
    let fraction := rest.takeWhile isDigit
    if fraction.isEmpty then none
    let exponent ← Decimal.readExponent? (rest.dropWhile isDigit)
    return { negative, whole, fraction, exponent, plain := false }
  | rest =>
    let exponent ← Decimal.readExponent? rest
    return { negative, whole, fraction := [], exponent, plain := rest.isEmpty }

/-- The characters that numbers are written with. -/
def isNumeric (c : Char) : Bool := isDigit c || ['+', '-', '.', 'e', 'E'].contains c

end Provision.Json
