/-!
Floating-point numbers of 64 bits by their fields: a sign, 11 bits of exponent and 52 bits of fraction.
A finite number is a whole `Binary64.mantissa` times a power of two that `Binary64.place` gives.
-/
namespace AspectWeaving

/-- The bit above the fraction, which is set in every number but the smallest. -/
def hiddenBit : Nat := 0x10000000000000

/-- The fields of a floating-point number. -/
structure Binary64 where
  isNegative : Bool
  exponent : Nat
  fraction : Nat
  deriving DecidableEq

namespace Binary64

/-- The fields of a number. -/
def ofFloat (x : Float) : Binary64 :=
  let bits := x.toBits.toNat
  { isNegative := 0x8000000000000000 ≤ bits
    exponent := bits / hiddenBit % 0x800
    fraction := bits % hiddenBit }

/-- The magnitude without its power of two; the exponent zero is that of numbers without the hidden bit. -/
def mantissa (b : Binary64) : Nat := if b.exponent = 0 then b.fraction else b.fraction + hiddenBit

/-- The magnitude is the mantissa times the power of two to this, less 1075. -/
def place (b : Binary64) : Nat := max b.exponent 1

end Binary64

end AspectWeaving
