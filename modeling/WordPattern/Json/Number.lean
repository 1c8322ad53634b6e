/-
Numbers as a JSON text writes them, and as messages show them.

A number written without fraction and exponent that fits 64 bits, signed if
it is negative and unsigned if not, is an integer. Every other number is a
double, `-0` included: its leading digits, as many as fit 64 bits unsigned,
are rounded to a double and then scaled by one power of ten, with one more
rounding.
-/
import WordPattern.Decimal.Shortest

namespace WordPattern.Json

/-- The parts of a written number. -/
structure Number where
  negative : Bool
  /-- The digits before the point. -/
  whole : List Char
  /-- The digits after the point, if there is one. -/
  fraction : Option (List Char)
  /-- The power of ten that follows, if one does. -/
  exponent : Option Int
  deriving DecidableEq

namespace Number

/-- A natural number written in digits. -/
def ofNat (n : Nat) : Number := ⟨false, Nat.toDigits 10 n, none, none⟩

/-- The value of a decimal digit. -/
def digitValue (ch : Char) : Nat := ch.toNat - '0'.toNat

/-- The value of a list of digits. -/
def digitsValue (digits : List Char) : Nat := digits.foldl (fun n ch => 10 * n + digitValue ch) 0

/-- The number as an integer, if it is one. -/
def toInt? (n : Number) : Option Int :=
  match n.fraction, n.exponent with
  | none, none =>
    let value := digitsValue n.whole
    if n.negative then (if value = 0 ∨ Nat.pow 2 63 < value then none else some (-(value : Int)))
    else if value < Nat.pow 2 64 then some value else none
  | _, _ => none

/-- The number as a natural number, if it is one. -/
def toNat? (n : Number) : Option Nat :=
  match n.toInt? with
  | some (.ofNat k) => some k
  | _ => none

/-! ## Doubles -/

/-- The value of the leading digits that fit 64 bits, and how many digits
that takes. -/
def leading (value taken : Nat) : List Char → Nat × Nat
  | [] => (value, taken)
  | ch :: rest =>
    if 10 * value + digitValue ch < Nat.pow 2 64 then
      leading (10 * value + digitValue ch) (taken + 1) rest
    else (value, taken)

/-- A whole number times a power of ten, whose product is the number. -/
def scaled (n : Number) : Nat × Int :=
  let (whole, taken) := leading 0 0 n.whole
  let (value, more) := leading whole 0 (n.fraction.getD [])
  (value, (n.whole.length : Int) - taken - more + n.exponent.getD 0)

/-- A double times a power of ten: none if that is no finite double. Powers
below `10^-308` are taken in two steps. -/
def scale? (x : Nat) (exponent : Int) : Option Nat :=
  if x = 0 ∨ exponent < -616 then some 0
  else if 308 < exponent then none
  else if 0 ≤ exponent then
    let product := Decimal.Binary64.mul x (Decimal.Binary64.ofNat (Nat.pow 10 exponent.toNat))
    if product < Decimal.Binary64.limit then some product else none
  else if -308 ≤ exponent then
    some (Decimal.Binary64.div x (Decimal.Binary64.ofNat (Nat.pow 10 (-exponent).toNat)))
  else
    some (Decimal.Binary64.div (Decimal.Binary64.div x (Decimal.Binary64.ofNat (Nat.pow 10 308)))
      (Decimal.Binary64.ofNat (Nat.pow 10 (-exponent - 308).toNat)))

/-- The magnitude of the number as a double. -/
def toDouble? (n : Number) : Option Nat :=
  let (value, exponent) := n.scaled
  scale? (Decimal.Binary64.ofNat value) exponent

/-- A double's digits are written with a point from `10^-5` up to below
`10^16` and with an exponent beyond; there is always a digit after a point,
and the sign of an exponent is always written. -/
def decimalText (s : Decimal.Scientific) : List Char :=
  if 0 ≤ s.exponent ∧ s.exponent < 16 then
    let places := s.exponent.toNat + 1
    let fraction := s.digits.drop places
    (s.digits.take places).rightpad places '0' ++ ['.'] ++ (if fraction = [] then ['0'] else fraction)
  else if -5 ≤ s.exponent ∧ s.exponent < 0 then
    ['0', '.'] ++ List.replicate ((-s.exponent).toNat - 1) '0' ++ s.digits
  else
    let fraction := s.digits.drop 1
    s.digits.take 1 ++ (if fraction = [] then [] else '.' :: fraction) ++
      ['e', if s.exponent < 0 then '-' else '+'] ++ Nat.toDigits 10 s.exponent.natAbs

/-- The number as messages name it. -/
def describe (n : Number) : String :=
  match n.toInt? with
  | some value => s!"integer `{value}`"
  | none =>
    match n.toDouble? with
    | none => "number out of range"
    | some x =>
      let digits := String.ofList (decimalText (Decimal.shortest x))
      if n.negative then s!"floating point `-{digits}`" else s!"floating point `{digits}`"

/-! ## Writing -/

/-- The number as it was read. -/
def text (n : Number) : List Char :=
  (if n.negative then ['-'] else []) ++ n.whole ++
    (match n.fraction with | some digits => '.' :: digits | none => []) ++
    (match n.exponent with | some e => 'e' :: (toString e).toList | none => [])

end Number
end WordPattern.Json
