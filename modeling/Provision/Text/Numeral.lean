/-!
# Numerals

Digits in a base up to sixteen, read and written.
-/

namespace Provision.Text

/-- The value of a digit, letters of either case standing for ten to fifteen. -/
def digitValue? (base : Nat) (c : Char) : Option Nat :=
  let n := c.toNat
  let v? :=
    if '0' ≤ c ∧ c ≤ '9' then some (n - 48)
    else if 'a' ≤ c ∧ c ≤ 'f' then some (n - 87)
    else if 'A' ≤ c ∧ c ≤ 'F' then some (n - 55)
    else none
  v?.filter (· < base)

/-- Whether a character is one of the ten ASCII digits. -/
def isDigit (c : Char) : Bool := (digitValue? 10 c).isSome

/-- Extends the number read so far by further digits. -/
def readDigits (base : Nat) : Nat → List Char → Option Nat
  | n, [] => some n
  | n, c :: cs => (digitValue? base c).bind fun d => readDigits base (n * base + d) cs

/-- Reads a non-empty run of digits, most significant first. -/
def readNat? (base : Nat) (cs : List Char) : Option Nat :=
  if cs.isEmpty then none else readDigits base 0 cs

/-- A natural number in decimal digits without leading zeros. -/
def natDigits (n : Nat) : List Char := Nat.toDigits 10 n

/-- An integer in decimal digits, with a minus sign when it is negative. -/
def intDigits (n : Int) : List Char :=
  if n < 0 then '-' :: natDigits n.natAbs else natDigits n.natAbs

/-- A character's code point in lower-case hexadecimal, filled with zeros to a width. -/
def hexDigits (width : Nat) (c : Char) : List Char :=
  let ds := Nat.toDigits 16 c.toNat
  List.replicate (width - ds.length) '0' ++ ds

end Provision.Text
