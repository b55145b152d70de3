import AspectWeaving.Binary64

/-!
The remainder of a division of floating-point numbers that is rounded toward zero. It is computed on
the whole numbers that two numbers are of a common power of two, and is exact: the remainder is less
than the divisor, no greater than the dividend and a multiple of that power, so it is a number of the
format again.
-/
namespace AspectWeaving

/-- A magnitude `mantissa · 2 ^ (place - 1075)`. -/
structure BinaryParts where
  mantissa : Nat
  place : Nat

/-- The parts of the magnitude of a finite number. -/
def BinaryParts.ofFields (b : Binary64) : BinaryParts := ⟨b.mantissa, b.place⟩

/-- The remainder of two magnitudes, the divisor not zero. -/
def BinaryParts.rem (x y : BinaryParts) : BinaryParts :=
  let place := min x.place y.place
  ⟨(x.mantissa <<< (x.place - place)) % (y.mantissa <<< (y.place - place)), place⟩

/-- The magnitude as a number. -/
def BinaryParts.toFloat (x : BinaryParts) : Float :=
  (Float.ofNat x.mantissa).scaleB ((x.place : Int) - 1075)

/-- What is left of `x` after `y` is taken away as often as it fits. It has the sign of `x`, and it is
    not a number where `x` is infinite or `y` is zero. -/
def remainder (x y : Float) : Float :=
  if x.isNaN || y.isNaN || x.isInf || y == 0 then 0 / 0
  else if y.isInf then x
  else
    let dividend := Binary64.ofFloat x
    let magnitude := ((BinaryParts.ofFields dividend).rem (.ofFields (.ofFloat y))).toFloat
    if dividend.isNegative then -magnitude else magnitude

end AspectWeaving
