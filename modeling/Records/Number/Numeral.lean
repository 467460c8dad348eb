import Records.Number.Double
import Records.Text.Blank
import Records.Text.Digits

/-!
Numerals: a sign, digits, a fraction and an exponent. The places that read numbers from text differ
in their blanks, digits and separators, and share this grammar.
-/
namespace Records.Number

open Records.Text

structure Numeral where
  negative : Bool
  whole : List Nat
  fraction : Option (List Nat)
  exponent : Option Int
deriving DecidableEq, Repr

def ofDigits (ds : List Nat) : Nat := ds.foldl (fun n d => 10 * n + d) 0

/-- The digits at the front, and what follows them. -/
def digitRun (digit : Char → Option Nat) : List Char → List Nat × List Char
  | [] => ([], [])
  | c :: cs =>
    match digit c with
    | some d => let (ds, rest) := digitRun digit cs; (d :: ds, rest)
    | none => ([], c :: cs)

def takeSign : List Char → Bool × List Char
  | '-' :: cs => (true, cs)
  | '+' :: cs => (false, cs)
  | cs => (false, cs)

/-- A single underscore between two digits is dropped; any other is refused. -/
def dropSeparators (digit : Char → Option Nat) : List Char → Option (List Char)
  | [] => some []
  | c :: '_' :: cs =>
    match digit c, cs.head? >>= digit with
    | some _, some _ => (dropSeparators digit cs).map (c :: ·)
    | _, _ => none
  | c :: cs => if c = '_' then none else (dropSeparators digit cs).map (c :: ·)

namespace Numeral

def takeFraction (digit : Char → Option Nat) : List Char → Option (List Nat) × List Char
  | '.' :: cs => let (ds, rest) := digitRun digit cs; (some ds, rest)
  | cs => (none, cs)

/-- The exponent that ends a numeral; none when what is left is not one. -/
def readExponent? (digit : Char → Option Nat) : List Char → Option (Option Int)
  | [] => some none
  | c :: cs =>
    if c = 'e' ∨ c = 'E' then
      let (negative, cs) := takeSign cs
      let (ds, rest) := digitRun digit cs
      if ds.isEmpty ∨ ¬ rest.isEmpty then none
      else some (some (if negative then -(ofDigits ds : Int) else ofDigits ds))
    else none

/-- The numeral that a whole text is. -/
def read? (digit : Char → Option Nat) (cs : List Char) : Option Numeral :=
  let (negative, cs) := takeSign cs
  let (whole, cs) := digitRun digit cs
  let (fraction, cs) := takeFraction digit cs
  if whole.isEmpty ∧ (fraction.getD []).isEmpty then none
  else (readExponent? digit cs).map fun exponent => ⟨negative, whole, fraction, exponent⟩

def isIntegral (n : Numeral) : Bool := n.fraction.isNone && n.exponent.isNone

/-- The integer before the point. -/
def integerPart (n : Numeral) : Int :=
  if n.negative then -(ofDigits n.whole : Int) else ofDigits n.whole

def toDouble (n : Numeral) : Double :=
  let fraction := n.fraction.getD []
  Double.ofDecimal n.negative (ofDigits (n.whole ++ fraction))
    (n.exponent.getD 0 - (fraction.length : Int))

end Numeral

/-- Integers are read up to this many digits. -/
def maxIntegerDigits : Nat := 4300

/-- A blank that may surround a numeral: the information separators are none. -/
def isNumeralBlank (c : Char) : Bool := isAsciiBlank c || (isBlank c && c.toNat ≥ 0x80)

/-- The integer a text is: digits of any script, blanks around, single underscores between. -/
def readInteger? (s : String) : Option Int := do
  let cs ← dropSeparators digitValue? (trimBy isNumeralBlank s.toList)
  let n ← Numeral.read? digitValue? cs
  if n.isIntegral ∧ n.whole.length ≤ maxIntegerDigits then some n.integerPart else none

/-- The number a text is, the names of infinity and of not-a-number included. -/
def readDouble? (s : String) : Option Double := do
  let cs := trimBy isNumeralBlank s.toList
  let (negative, rest) := takeSign cs
  let word := rest.map Char.toLower
  if word = "inf".toList ∨ word = "infinity".toList then some (.infinite negative)
  else if word = "nan".toList then some .nan
  else
    let cs ← dropSeparators digitValue? cs
    (Numeral.read? digitValue? cs).map Numeral.toDouble

end Records.Number
