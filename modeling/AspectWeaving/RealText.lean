import AspectWeaving.ShortestDecimal

/-!
The text of a floating-point number: its shortest decimal, written out in full without an exponent
and without a fraction of zeros (`realText`).
-/
namespace AspectWeaving

/-- A decimal in positional notation, without zeros at the end of its fraction. -/
def Decimal.positional (d : Decimal) : String :=
  let digits := Nat.toDigits 10 d.digits
  if 0 ≤ d.place then String.ofList (digits ++ List.replicate d.place.toNat '0')
  else
    let places := (-d.place).toNat
    let padded := List.replicate (places + 1 - digits.length) '0' ++ digits
    let whole := padded.take (padded.length - places)
    let fraction := ((padded.drop (padded.length - places)).reverse.dropWhile (· == '0')).reverse
    String.ofList (if fraction.isEmpty then whole else whole ++ '.' :: fraction)

/-- A floating-point number as text; zero keeps its sign. -/
def realText (x : Float) : String :=
  if x.isNaN then "NaN"
  else
    let fields := Binary64.ofFloat x
    (if fields.isNegative then "-" else "") ++
      (if x.isInf then "inf"
       else if fields.mantissa = 0 then "0"
       else (Interval.ofFields fields).shortest.positional)

end AspectWeaving
