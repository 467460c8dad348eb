import Records.Number.Numeral
import Records.Number.Written
import Records.Schema
import Records.Text.Utf

/-!
Cells of a table: the five storage classes, the conversion that a column's affinity makes, and the
order of cells.
-/
namespace Records

open Records.Number (Double)

inductive Cell
  | null
  | integer (n : Int)
  | real (x : Double)
  | text (s : String)
  | blob (b : List UInt8)
deriving DecidableEq

inductive Affinity
  | text
  | integer
  | real
  | numeric
deriving DecidableEq

def Kind.affinity : Kind → Affinity
  | .text => .text
  | .int => .integer
  | .float => .real
  | .bool => .numeric
  | .date => .numeric
  | .moment => .numeric
  | .untyped => .text

/-- Integers of 64 bits. -/
def fitsInteger (n : Int) : Bool := -9223372036854775808 ≤ n && n ≤ 9223372036854775807

namespace Cell

instance : Inhabited Cell := ⟨null⟩

/-- A number as an integer when it is one, short of the two ends of the range. -/
def ofDouble (x : Double) : Cell :=
  match x.integer? with
  | some n => if -9223372036854775808 < n ∧ n < 9223372036854775807 then integer n else real x
  | none => real x

/-- The number a text is, with ASCII blanks around. -/
def number? (s : String) : Option Cell := do
  let n ← Number.Numeral.read? Text.asciiDigit? (Text.trimBy Text.isAsciiBlank s.toList)
  if n.isIntegral ∧ fitsInteger n.integerPart then some (integer n.integerPart)
  else some (ofDouble n.toDouble)

/-- What a column with this affinity makes of a cell it is compared with. -/
def compared (a : Affinity) : Cell → Cell
  | integer n => if a = .text then text (toString n) else integer n
  | real x => if a = .text then text x.stored else real x
  | text s => if a = .text then text s else (number? s).getD (text s)
  | c => c

/-- What a column with this affinity keeps of a cell. A zero that is kept as a number has no sign. -/
def kept (a : Affinity) (c : Cell) : Cell :=
  match a, compared a c with
  | .real, integer n => real (Double.ofInt n)
  | .real, real x => real x.unsignedZero
  | .integer, real x => ofDouble x
  | .numeric, real x => ofDouble x
  | _, c => c

/-- A cell as text for matching. -/
def asText? : Cell → Option String
  | null => none
  | integer n => some (toString n)
  | real x => some x.stored
  | text s => some s
  | blob b => some (Text.decodeLossy b)

def orderTexts (a b : String) : Ordering :=
  if a = b then .eq else if a < b then .lt else .gt

def orderBytes : List UInt8 → List UInt8 → Ordering
  | [], [] => .eq
  | [], _ :: _ => .lt
  | _ :: _, [] => .gt
  | a :: as, b :: bs => if a < b then .lt else if b < a then .gt else orderBytes as bs

/-- Nulls, then numbers, then texts, then blobs. -/
def rank : Cell → Nat
  | null => 0
  | integer _ => 1
  | real _ => 1
  | text _ => 2
  | blob _ => 3

/-- The order of numbers. No cell that was bound holds not-a-number; it would come first. -/
def orderNumbers : Double → Double → Ordering
  | .nan, .nan => .eq
  | .nan, _ => .lt
  | _, .nan => .gt
  | x, y => (x.compare? y).getD .eq

/-- The order of cells when rows are sorted. -/
def order : Cell → Cell → Ordering
  | integer a, integer b => compare a b
  | integer a, real y => ((y.compareInt? a).map Ordering.swap).getD .gt
  | real x, integer b => (x.compareInt? b).getD .lt
  | real x, real y => orderNumbers x y
  | text a, text b => orderTexts a b
  | blob a, blob b => orderBytes a b
  | a, b => compare a.rank b.rank

/-- The order of two cells in a condition, in which a null has no order. -/
def compare? : Cell → Cell → Option Ordering
  | null, _ => none
  | _, null => none
  | a, b => some (order a b)

def equals (a b : Cell) : Bool := compare? a b == some .eq

end Cell

end Records
