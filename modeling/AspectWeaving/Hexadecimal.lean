/-!
Hexadecimal numerals in lower case: `hex` without padding, and `hexPadded` filled with zeros on the
left up to a least width.
-/
namespace AspectWeaving

/-- The hexadecimal numeral of a number, without leading zeros. -/
def hex (n : Nat) : String := String.ofList (Nat.toDigits 16 n)

/-- The hexadecimal numeral of a number, with zeros in front of it up to `width` digits. -/
def hexPadded (width n : Nat) : String :=
  let digits := Nat.toDigits 16 n
  String.ofList (List.replicate (width - digits.length) '0' ++ digits)

end AspectWeaving
