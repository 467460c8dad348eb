import Records.Number.Written

/-!
Numbers with a fixed count of places or of significant digits, an exact half going to the even
digit.
-/
namespace Records.Number

/-- A point and the digits behind it; without digits the point is kept only on demand. -/
def pointedTail (keepPoint : Bool) (fraction : String) : String :=
  if fraction.isEmpty ∧ ¬ keepPoint then "" else "." ++ fraction

/-- A quotient with a count of places. -/
def fixedText (keepPoint : Bool) (places num den : Nat) : String :=
  let digits := leftZeros (places + 1) (toString (Decimal.inPlaces .toEven places num den))
  let whole := digits.length - places
  takeText whole digits ++ pointedTail keepPoint (dropText whole digits)

/-- The digits of a quotient to a count of significant digits, and the exponent of the first. -/
def significantDigits (count num den : Nat) : String × Int :=
  if num = 0 then (zeros count, 0)
  else
    let d := Decimal.significant .toEven count num den
    let digits := toString d.digits
    (takeText count digits, d.power + (digits.length : Int) - 1)

/-- A quotient with one digit before the point and an exponent. -/
def exponentialText (keepPoint : Bool) (places num den : Nat) : String :=
  let (digits, k) := significantDigits (places + 1) num den
  takeText 1 digits ++ pointedTail keepPoint (dropText 1 digits) ++ "e" ++ exponentText k

/-- A text without the zeros at the end of its fraction. -/
def stripFraction (s : String) : String :=
  if s.contains '.' then
    let cs := s.toList.reverse.dropWhile (· == '0')
    String.ofList ((if cs.head? = some '.' then cs.tail else cs).reverse)
  else s

/-- A quotient to a count of significant digits, positional unless the exponent is small or does not
fit the count. `keepZeros` keeps the zeros at the end. -/
def generalText (keepZeros : Bool) (count num den : Nat) : String :=
  let count := max 1 count
  let (digits, k) := significantDigits count num den
  if -4 ≤ k ∧ k < count then
    let s := fixedText keepZeros ((count : Int) - 1 - k).toNat num den
    if keepZeros then s else stripFraction s
  else
    let mantissa := takeText 1 digits ++ "." ++ dropText 1 digits
    (if keepZeros then mantissa else stripFraction mantissa) ++ "e" ++ exponentText k

end Records.Number
