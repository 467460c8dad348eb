import Records.Number.Decimal

/-!
Text of numbers. One writer serves every spelling; a style record holds the decisions: which
exponents are written positionally, whether a point is kept, and how the non-finite values are
named.
-/
namespace Records.Number

/-- How a number is spelled. -/
structure Style where
  /-- Decimal exponents from here are written positionally, … -/
  lowest : Int
  /-- … up to and including this one. -/
  highest : Int
  /-- A lone leading digit before an exponent is followed by `.0`. -/
  pointBeforeExponent : Bool
  nan : String
  infinity : String

/-- The literal form of a number, as a program would write it. -/
def Style.literal : Style := ⟨-4, 15, false, "nan", "inf"⟩

/-- The form of a number in a structured document. -/
def Style.document : Style := { Style.literal with nan := "NaN", infinity := "Infinity" }

/-- The form a number takes when a text column stores it. -/
def Style.stored : Style := ⟨-4, 14, true, "NaN", "Inf"⟩

def zeros (n : Nat) : String := "".pushn '0' n

def leftZeros (width : Nat) (s : String) : String := zeros (width - s.length) ++ s

/-- An exponent with its sign and at least two digits. -/
def exponentText (k : Int) : String :=
  (if k < 0 then "-" else "+") ++ leftZeros 2 (toString k.natAbs)

def takeText (n : Nat) (s : String) : String := String.ofList (s.toList.take n)

def dropText (n : Nat) (s : String) : String := String.ofList (s.toList.drop n)

/-- Digits with the point after the first. -/
def scientificText (pointed : Bool) (digits : String) (k : Int) : String :=
  let rest := dropText 1 digits
  let fraction := if rest.isEmpty then (if pointed then ".0" else "") else "." ++ rest
  takeText 1 digits ++ fraction ++ "e" ++ exponentText k

/-- Digits with the point where the exponent puts it. -/
def positionalText (digits : String) (k : Int) : String :=
  if k < 0 then "0." ++ zeros (k.natAbs - 1) ++ digits
  else
    let width := k.toNat + 1
    let whole := takeText width digits
    let rest := dropText width digits
    whole ++ zeros (width - whole.length) ++ "." ++ (if rest.isEmpty then "0" else rest)

/-- A nonzero decimal in a style. -/
def Decimal.text (style : Style) (d : Decimal) : String :=
  let digits := toString d.digits
  let k := d.power + (digits.length : Int) - 1
  if style.lowest ≤ k ∧ k ≤ style.highest then positionalText digits k
  else scientificText style.pointBeforeExponent digits k

def signed (negative : Bool) (s : String) : String := if negative then "-" ++ s else s

namespace Double

/-- The text of a number in a style, with the decimal that `choose` picks for a magnitude. -/
def textWith (style : Style) (choose : Nat → Int → Decimal) : Double → String
  | .nan => style.nan
  | .infinite s => signed s style.infinity
  | .finite s m e _ => signed s (if m = 0 then "0.0" else (choose m e).text style)

/-- The shortest text that reads back. -/
def literal (x : Double) : String := x.textWith .literal Decimal.shortest

def document (x : Double) : String := x.textWith .document Decimal.shortest

/-- Fifteen significant digits, a half going up; negative zero loses its sign. -/
def stored (x : Double) : String :=
  let choose (m : Nat) (e : Int) : Decimal :=
    let (num, den) := scaled m 1 (-e)
    (Decimal.significant .up 15 num den).normalize
  match x with
  | .finite _ 0 _ _ => "0.0"
  | x => x.textWith .stored choose

end Double

end Records.Number
