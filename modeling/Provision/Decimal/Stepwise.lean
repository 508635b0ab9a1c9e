import Provision.Decimal.Binary64
import Provision.Text.Numeral

/-!
# Reading a decimal step by step

A fast way to a double that is not always the nearest one: as many digits as fit 64 bits
make a double, which is then multiplied or divided by a power of ten. Each of these
steps rounds.
-/

namespace Provision.Decimal

/-- The largest significand that digits are taken into. -/
def maxSignificand : Nat := Nat.pow 2 64 - 1

/-- Takes digits into a significand for as long as it fits, and counts those left over. -/
def absorb : Nat → List Char → Nat × Nat
  | n, [] => (n, 0)
  | n, c :: cs =>
    let m := n * 10 + (Text.digitValue? 10 c).getD 0
    if m ≤ maxSignificand then absorb m cs else (n, cs.length + 1)

/-- The largest power of ten that a double holds. -/
def maxPower : Nat := 308

/-- A power of ten as a double. -/
def powerOfTen (k : Nat) : Binary64 := Binary64.ofDecimal false 1 k

/-- A double multiplied by a power of ten, unless it leaves the range. Small powers are
divided out in several steps. -/
def scale (x : Binary64) (exponent : Int) : Option Binary64 :=
  if 0 ≤ exponent then
    if exponent ≤ (maxPower : Int) then
      let y := x.product (powerOfTen exponent.toNat)
      if y.isFinite then some y else none
    else if x.magnitude.1 = 0 then some x
    else none
  else if -(maxPower : Int) ≤ exponent then some (x.quotient (powerOfTen (-exponent).toNat))
  else if x.magnitude.1 = 0 then some x
  else scale (x.quotient (powerOfTen maxPower)) (exponent + (maxPower : Int))
termination_by (-exponent).toNat
decreasing_by
  simp only [maxPower] at *
  omega

/-- The double of a decimal, unless it is out of range. -/
def stepwise (negative : Bool) (whole fraction : List Char) (exponent : Int) : Option Binary64 :=
  let (significand, above) := absorb 0 whole
  let (significand, below) := absorb significand fraction
  let places : Int := (above : Int) - ((fraction.length - below : Nat) : Int)
  (scale (Binary64.ofRatio false significand 1) (places + exponent)).map (·.withSign negative)

end Provision.Decimal
