/-!
# Double-precision numbers

A number is kept as the integers that make it up, so that reading, writing and
comparing it are exact integer arithmetic.
-/

namespace Provision

/-- A double-precision number. `finite s m e` is `m * 2 ^ e`, negated when `s` holds. -/
inductive Binary64 where
  | nan
  | infinite (negative : Bool)
  | finite (negative : Bool) (mantissa : Nat) (exponent : Int)
  deriving DecidableEq, Inhabited

namespace Binary64

/-- The exponent of the smallest positive number. -/
def minExponent : Int := -1074

/-- The exponent of the largest finite number. -/
def maxExponent : Int := 971

/-- The quotient rounded to the nearest natural number, a half to the even neighbour. -/
def roundDiv (n d : Nat) : Nat :=
  let q := n / d
  let r := n % d
  if 2 * r < d then q
  else if d < 2 * r then q + 1
  else if q % 2 = 0 then q
  else q + 1

/-- Whether `n / d` is less than `2 ^ k`. -/
def belowPower (n d : Nat) (k : Int) : Bool :=
  if 0 ≤ k then n < d * Nat.pow 2 k.toNat else n * Nat.pow 2 (-k).toNat < d

/-- The number nearest to `n / d`, a tie going to the even mantissa. The exponent is the
one that gives the mantissa 53 bits, or the least exponent for smaller numbers. -/
def ofRatio (negative : Bool) (n d : Nat) : Binary64 :=
  if n = 0 then .finite negative 0 minExponent
  else
    let k : Int := (n.log2 : Int) - (d.log2 : Int)
    let e := max minExponent (if belowPower n d k then k - 53 else k - 52)
    let m :=
      if 0 ≤ e then roundDiv n (d * Nat.pow 2 e.toNat) else roundDiv (n * Nat.pow 2 (-e).toNat) d
    let (m, e) := if m = Nat.pow 2 53 then (Nat.pow 2 52, e + 1) else (m, e)
    if maxExponent < e then .infinite negative else .finite negative m e

/-- The number nearest to `significand * 10 ^ exponent`. Far outside the range the answer
is known from the number of digits alone, so no huge power is computed. -/
def ofDecimal (negative : Bool) (significand : Nat) (exponent : Int) : Binary64 :=
  let magnitude := ((Nat.toDigits 10 significand).length : Int) + exponent
  if significand = 0 ∨ magnitude < -330 then .finite negative 0 minExponent
  else if 310 < magnitude then .infinite negative
  else if 0 ≤ exponent then ofRatio negative (significand * Nat.pow 10 exponent.toNat) 1
  else ofRatio negative significand (Nat.pow 10 (-exponent).toNat)

/-- The magnitude of a finite number as a fraction. -/
def magnitude : Binary64 → Nat × Nat
  | .finite _ m e => if 0 ≤ e then (m * Nat.pow 2 e.toNat, 1) else (m, Nat.pow 2 (-e).toNat)
  | _ => (0, 1)

/-- The product of the magnitudes of two finite numbers, rounded. -/
def product (x y : Binary64) : Binary64 :=
  ofRatio false (x.magnitude.1 * y.magnitude.1) (x.magnitude.2 * y.magnitude.2)

/-- The quotient of the magnitudes of two finite numbers, rounded. -/
def quotient (x y : Binary64) : Binary64 :=
  ofRatio false (x.magnitude.1 * y.magnitude.2) (x.magnitude.2 * y.magnitude.1)

/-- A number with a given sign. -/
def withSign (negative : Bool) : Binary64 → Binary64
  | .nan => .nan
  | .infinite _ => .infinite negative
  | .finite _ m e => .finite negative m e

/-- Whether a number is neither infinite nor an invalid one. -/
def isFinite : Binary64 → Bool
  | .finite .. => true
  | _ => false

/-- Numerical equality: the two zeros are the same number, and there is one invalid number. -/
def same : Binary64 → Binary64 → Bool
  | .finite s m e, .finite t n f => (m = 0 && n = 0) || (s == t && m == n && e == f)
  | x, y => x == y

end Binary64

end Provision
