/-!
# The shortest decimal of a binary fraction

A floating-point number stands for every real that rounds to it.  Its shortest decimal is the one
with the fewest digits among those reals; of several it is the nearest, and of two that are equally
near the one whose last digit is even.

* `Binary`, `Binary.ofFloat`: the magnitude of a floating-point number as a whole number of units;
* `Decimal`: digits and the power of ten of the last of them;
* `Binary.shortest`: the shortest decimal of a magnitude;
* `Decimal.digits`, `Decimal.magnitude`: the digits without zeros at the end, and the power of ten
  of the first of them.
-/

namespace RulePack

/-- The magnitude `significand * 2 ^ exponent`.  At the foot of a binade the numbers below it lie
twice as close as those above it. -/
structure Binary where
  significand : Nat
  exponent : Int
  atFoot : Bool
  deriving DecidableEq, Repr

/-- The decimal `coefficient * 10 ^ exponent`. -/
structure Decimal where
  coefficient : Nat
  exponent : Int
  deriving DecidableEq, Repr

namespace Binary

/-- The number of fractions between two powers of two. -/
def fractions : Nat := 0x10000000000000

/-- The number of exponents. -/
def powers : Nat := 0x800

/-- The magnitude of a finite floating-point number: its bits are a fraction, above that an
exponent, and the sign on top. -/
def ofFloat (x : Float) : Binary :=
  let bits : Nat := x.toBits.toNat
  let fraction : Nat := bits % fractions
  let power : Nat := bits / fractions % powers
  if power = 0 then ⟨fraction, -1074, false⟩
  else ⟨fractions + fraction, (power : Int) - 1075, fraction = 0 ∧ 1 < power⟩

/-- A quantity as a quotient of whole numbers, and the half widths of the interval that rounds to
it, over the same denominator. -/
structure Interval where
  value : Nat
  down : Nat
  up : Nat
  denominator : Nat
  closed : Bool

/-- The reals that round to a magnitude. -/
def interval (b : Binary) : Interval :=
  let quarters := b.exponent - 2
  let scale := Nat.pow 2 quarters.toNat
  { value := 4 * b.significand * scale
    down := (if b.atFoot then 1 else 2) * scale
    up := 2 * scale
    denominator := Nat.pow 2 (-quarters).toNat
    closed := b.significand % 2 = 0 }

/-- The same interval measured in units of `10 ^ k`. -/
def Interval.inUnits (i : Interval) (k : Int) : Interval :=
  let grow := Nat.pow 10 (-k).toNat
  { i with
    value := i.value * grow
    down := i.down * grow
    up := i.up * grow
    denominator := i.denominator * Nat.pow 10 k.toNat }

/-- Does the interval hold the whole number? -/
def Interval.holds (i : Interval) (n : Nat) : Bool :=
  let point := n * i.denominator
  if i.closed then i.value ≤ point + i.down && point ≤ i.value + i.up
  else i.value < point + i.down && point < i.value + i.up

/-- The whole number in the interval that is nearest to its value, if one of the value's two
neighbours is in it. -/
def Interval.nearest? (i : Interval) : Option Nat :=
  let below := i.value / i.denominator
  let rest := i.value % i.denominator
  match i.holds below, i.holds (below + 1) with
  | true, true =>
    if 2 * rest < i.denominator ∨ (2 * rest = i.denominator ∧ below % 2 = 0) then some below
    else some (below + 1)
  | true, false => some below
  | false, true => some (below + 1)
  | false, false => none

/-- The number of decimal digits of a whole number. -/
def digitCount (n : Nat) : Nat := n.repr.length

/-- The power of ten of the first digit of a positive quantity. -/
def Interval.magnitude (i : Interval) : Int :=
  let guess : Int := (digitCount i.value : Int) - digitCount i.denominator
  if i.denominator * Nat.pow 10 guess.toNat ≤ i.value * Nat.pow 10 (-guess).toNat then guess
  else guess - 1

/-- The decimal of the coarsest grid that meets the interval.  `fuel` bounds the digits still to be
tried and `digits` counts those of the present grid. -/
def search (i : Interval) (magnitude : Int) : Nat → Int → Decimal
  | 0, _ => ⟨i.value / i.denominator, 0⟩
  | fuel + 1, digits =>
    let k := magnitude - (digits - 1)
    match (i.inUnits k).nearest? with
    | some n => ⟨n, k⟩
    | none => search i magnitude fuel (digits + 1)

/-- The shortest decimal of a magnitude; seventeen digits always suffice. -/
def shortest (b : Binary) : Decimal :=
  if b.significand = 0 then ⟨0, 0⟩
  else
    let i := b.interval
    search i i.magnitude 17 1

end Binary

namespace Decimal

/-- The digits of the coefficient without the zeros at their end; zero keeps one digit. -/
def digits (d : Decimal) : List Char :=
  match (d.coefficient.repr.toList.reverse.dropWhile (· == '0')).reverse with
  | [] => ['0']
  | ds => ds

/-- The power of ten of the first digit. -/
def magnitude (d : Decimal) : Int := d.exponent + ((Binary.digitCount d.coefficient : Int) - 1)

end Decimal

end RulePack
