import Provision.Decimal.Binary64

/-!
# The shortest decimal that reads back

Among the decimals that round to a given double, one with the fewest digits is
chosen, and of those the nearest. For each number of digits it is enough to try the
two neighbours of the double on that decimal grid.
-/

namespace Provision.Decimal

/-- The decimal `significand * 10 ^ exponent`. -/
structure Digits where
  /-- The digits as one number. -/
  significand : Nat
  /-- The power of ten of the last digit. -/
  exponent : Int
  deriving DecidableEq, Inhabited

/-- The fractions `value / scale` and the interval of reals that round to it. -/
structure Interval where
  /-- The lower end, in units of `1 / scale`. -/
  low : Nat
  /-- The double itself. -/
  value : Nat
  /-- The upper end. -/
  high : Nat
  /-- The common denominator. -/
  scale : Nat
  /-- Whether the ends themselves round to the double. -/
  closed : Bool

/-- The interval of reals that round to `m * 2 ^ e`. Its lower half is shorter where the
next smaller double has a smaller exponent. -/
def Interval.around (m : Nat) (e : Int) : Interval :=
  let s := e - 2
  let factor := if 0 ≤ s then Nat.pow 2 s.toNat else 1
  let scale := if 0 ≤ s then 1 else Nat.pow 2 (-s).toNat
  let below := if m = Nat.pow 2 52 ∧ Binary64.minExponent < e then 1 else 2
  { low := (4 * m - below) * factor
    value := 4 * m * factor
    high := (4 * m + 2) * factor
    scale := scale
    closed := m % 2 = 0 }

/-- The power of ten of the first digit of `n / d`. -/
def leadingPower (n d : Nat) : Int :=
  if d ≤ n then ((Nat.toDigits 10 (n / d)).length : Int) - 1
  else
    let k := (Nat.toDigits 10 (d / n)).length
    if n * Nat.pow 10 (k - 1) = d then -((k - 1 : Nat) : Int) else -(k : Int)

/-- `n / d` and `c * 10 ^ u` brought to a common denominator. -/
def overGrid (n d c : Nat) (u : Int) : Nat × Nat :=
  if 0 ≤ u then (n, c * Nat.pow 10 u.toNat * d) else (n * Nat.pow 10 (-u).toNat, c * d)

/-- Whether the grid point `c * 10 ^ u` lies in the interval. -/
def Interval.contains (i : Interval) (c : Nat) (u : Int) : Bool :=
  let (low, point) := overGrid i.low i.scale c u
  let (high, _) := overGrid i.high i.scale c u
  if i.closed then low ≤ point && point ≤ high else low < point && point < high

/-- The grid point with steps of `10 ^ u` that lies in the interval nearest to its value,
a tie going to the even digit. -/
def Interval.onGrid? (i : Interval) (u : Int) : Option Nat :=
  let (value, step) := overGrid i.value i.scale 1 u
  let c := value / step
  let r := value % step
  match i.contains c u, i.contains (c + 1) u with
  | false, false => none
  | true, false => some c
  | false, true => some (c + 1)
  | true, true =>
    if 2 * r < step then some c
    else if step < 2 * r then some (c + 1)
    else if c % 2 = 0 then some c
    else some (c + 1)

/-- Moves the zeros at the end of the significand into the exponent. -/
def Digits.stripZeros : Nat → Digits → Digits
  | 0, d => d
  | fuel + 1, d =>
    if d.significand % 10 = 0 ∧ d.significand ≠ 0 then
      stripZeros fuel ⟨d.significand / 10, d.exponent + 1⟩
    else d

/-- The shortest decimal that rounds to `m * 2 ^ e`. Seventeen digits always suffice. -/
def shortest (m : Nat) (e : Int) : Digits :=
  if m = 0 then ⟨0, 0⟩
  else
    let i := Interval.around m e
    let p := leadingPower i.value i.scale
    let found := (List.range 17).findSome? fun (n : Nat) =>
      let u := p - (n : Int)
      (i.onGrid? u).map fun c => Digits.stripZeros 20 ⟨c, u⟩
    found.getD ⟨0, 0⟩

end Provision.Decimal
