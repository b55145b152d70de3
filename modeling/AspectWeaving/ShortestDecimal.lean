import AspectWeaving.Binary64

/-!
The shortest decimal of a binary floating-point number: of the decimals that read back to the number,
one with the fewest digits, and of those the nearest. `Interval.ofFields` gives the reals that read
back to a number, as fractions over a common denominator, and `Interval.shortest` searches the grids
of one digit, two digits and so on for a point of the interval.
-/
namespace AspectWeaving

/-- A decimal `digits · 10 ^ place`. -/
structure Decimal where
  digits : Nat
  place : Int
  deriving DecidableEq

/-- A positive real `value / denominator` with the ends of the reals that round to it. The ends
    round to it as well exactly when the interval is `closed`. -/
structure Interval where
  lower : Nat
  value : Nat
  upper : Nat
  denominator : Nat
  closed : Bool

namespace Interval

/-- The interval of the magnitude of a number that is finite and not zero. In quarters of the last place
    the ends lie 2 away, but only 1 below a power of two, where the numbers get denser. -/
def ofFields (b : Binary64) : Interval :=
  let below := if b.fraction = 0 ∧ 1 < b.exponent then 1 else 2
  let scale := 1 <<< (b.place - 1077)
  { lower := (4 * b.mantissa - below) * scale
    value := 4 * b.mantissa * scale
    upper := (4 * b.mantissa + 2) * scale
    denominator := 1 <<< (1077 - b.place)
    closed := b.mantissa % 2 = 0 }

/-- The interval measured in units of `10 ^ place`. -/
def onGrid (i : Interval) (place : Int) : Interval :=
  let up := Nat.pow 10 (-place).toNat
  { i with
    lower := i.lower * up
    value := i.value * up
    upper := i.upper * up
    denominator := i.denominator * Nat.pow 10 place.toNat }

/-- The whole number `n` lies in the interval. -/
def contains (i : Interval) (n : Nat) : Bool :=
  let x := n * i.denominator
  if i.closed then i.lower ≤ x && x ≤ i.upper else i.lower < x && x < i.upper

/-- The whole number of the interval that is nearest to its value, if the value has a neighbour in
    it. Between two that are equally near the greater one is taken. -/
def nearest? (i : Interval) : Option Nat :=
  let n := i.value / i.denominator
  match i.contains n, i.contains (n + 1) with
  | true, true => if 2 * i.value < (2 * n + 1) * i.denominator then some n else some (n + 1)
  | true, false => some n
  | false, true => some (n + 1)
  | false, false => none

/-- The zeros between the point and the first digit of a value below one, at most `fuel`. -/
def zerosAfterPoint (value denominator : Nat) : Nat → Nat
  | 0 => 0
  | fuel + 1 => if denominator ≤ value * 10 then 0 else 1 + zerosAfterPoint (value * 10) denominator fuel

/-- The exponent of the least power of ten above the value. -/
def magnitude (i : Interval) : Int :=
  if i.denominator ≤ i.value then (Nat.toDigits 10 (i.value / i.denominator)).length
  else -(zerosAfterPoint i.value i.denominator 400 : Int)

/-- The first decimal found with `count` digits or, up to `fuel` times, with one more. -/
def search (i : Interval) (count : Nat) : Nat → Decimal
  | 0 => ⟨0, 0⟩
  | fuel + 1 =>
    let place := i.magnitude - count
    match (i.onGrid place).nearest? with
    | some digits => ⟨digits, place⟩
    | none => i.search (count + 1) fuel

/-- The shortest decimal; 17 digits always suffice. -/
def shortest (i : Interval) : Decimal := i.search 1 17

end Interval

end AspectWeaving
