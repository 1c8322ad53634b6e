/-
The fewest decimal digits that still stand for a given double.

The numbers that round to a double form an interval around it. For one
digit, two digits and so on, the two numbers with that many digits on either
side of the double are tried, and the first that lies in the interval is
taken; of two, the nearer, and of two as near the even one.
-/
import WordPattern.Decimal.Binary64

namespace WordPattern.Decimal

/-- `digits` with a point after the first one, times ten to `exponent`. -/
structure Scientific where
  digits : List Char
  exponent : Int
  deriving DecidableEq

/-- A double and the ends of the interval that rounds to it, as multiples of
`2^-1076`. -/
structure Interval where
  low : Nat
  middle : Nat
  high : Nat
  /-- Whether the ends round to the double as well. -/
  closed : Bool

namespace Interval

/-- The numbers that round to the double `x`. -/
def around (x : Nat) : Interval :=
  let step := Nat.pow 2 (Binary64.stepExponent x 1)
  let significand := x / step
  let below := if significand = Nat.pow 2 52 ∧ 1 < step then step else 2 * step
  ⟨4 * x - below, 4 * x, 4 * x + 2 * step, significand % 2 == 0⟩

/-- Whether `k * unit / scale` lies in the interval. -/
def contains (i : Interval) (unit scale k : Nat) : Bool :=
  if i.closed then i.low * scale ≤ k * unit && k * unit ≤ i.high * scale
  else i.low * scale < k * unit && k * unit < i.high * scale

/-- The multiple of `unit / scale` to take: the nearer of the middle's
neighbours that lie in the interval. -/
def pick (i : Interval) (unit scale : Nat) : Option Nat :=
  let below := i.middle * scale / unit
  match i.contains unit scale below, i.contains unit scale (below + 1) with
  | true, true => some (roundEven (i.middle * scale) unit)
  | true, false => some below
  | false, true => some (below + 1)
  | false, false => none

end Interval

/-- The exponent `e` with `10^e ≤ x < 10^(e+1)`, for a double `x` above zero. -/
def decimalExponent (x : Nat) : Int :=
  if Binary64.one ≤ x then ((Nat.toDigits 10 (x / Binary64.one)).length : Int) - 1
  else
    match (List.range 325).find? (fun k => Binary64.one ≤ x * Nat.pow 10 k) with
    | some k => -(k : Int)
    | none => -324

/-- The digits of `k` without the zeros at their end. -/
def significantDigits (k : Nat) : List Char :=
  ((Nat.toDigits 10 k).reverse.dropWhile (· == '0')).reverse

/-- The number with `count` digits that stands for the double `x`. -/
def withDigits? (x count : Nat) : Option Scientific :=
  let exponent := decimalExponent x - count + 1
  let unit := Nat.pow 10 exponent.toNat * (4 * Binary64.one)
  let scale := Nat.pow 10 (-exponent).toNat
  ((Interval.around x).pick unit scale).map fun k =>
    ⟨significantDigits k, exponent + (Nat.toDigits 10 k).length - 1⟩

/-- The shortest number that stands for the double `x`; seventeen digits
always do. -/
def shortest (x : Nat) : Scientific :=
  if x = 0 then ⟨['0'], 0⟩
  else ((List.range 17).findSome? (fun k => withDigits? x (k + 1))).getD ⟨['0'], 0⟩

end WordPattern.Decimal
