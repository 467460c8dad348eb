/-!
Binary floating-point numbers of 64 bits as exact data: a sign, a mantissa and a power of two.
Every finite number has one canonical form, so equal data is the same number, and rounding a
quotient is integer arithmetic.
-/
namespace Records.Number

/-- The least number of 53 bits. -/
def leastFull : Nat := 4503599627370496

/-- The least number of more than 53 bits. -/
def leastOver : Nat := 9007199254740992

/-- A mantissa fills 53 bits unless the exponent is already the least one. -/
def Canonical (mantissa : Nat) (exponent : Int) : Prop :=
  mantissa < leastOver ∧ -1074 ≤ exponent ∧ exponent ≤ 971 ∧
    (leastFull ≤ mantissa ∨ exponent = -1074)

instance (mantissa : Nat) (exponent : Int) : Decidable (Canonical mantissa exponent) :=
  inferInstanceAs (Decidable (_ ∧ _ ∧ _ ∧ _))

inductive Double
  | nan
  | infinite (negative : Bool)
  | finite (negative : Bool) (mantissa : Nat) (exponent : Int)
      (canonical : Canonical mantissa exponent)
deriving DecidableEq

/-- The integer nearest to a quotient, a half going to the even neighbour. -/
def roundQuotient (num den : Nat) : Nat :=
  let q := num / den
  let r := num % den
  if 2 * r < den then q else if den < 2 * r then q + 1 else q + q % 2

namespace Double

def zero (negative : Bool) : Double := .finite negative 0 (-1074) (by decide)

instance : Inhabited Double := ⟨zero false⟩

/-- The quotient divided by a power of two, again as a quotient. -/
def scaled (num den : Nat) : Int → Nat × Nat
  | .ofNat k => (num, den * Nat.pow 2 k)
  | .negSucc k => (num * Nat.pow 2 (k + 1), den)

/-- The number with this mantissa and exponent, once a carry out of 53 bits is renormalised;
past the largest exponent it is infinite. -/
def assemble (negative : Bool) (mantissa : Nat) (exponent : Int) : Double :=
  let (m, e) := if mantissa = leastOver then (leastFull, exponent + 1) else (mantissa, exponent)
  if h : Canonical m e then .finite negative m e h else .infinite negative

/-- The number nearest to a quotient, a half going to the even mantissa. -/
def ofQuotient (negative : Bool) (num den : Nat) : Double :=
  if num = 0 then zero negative
  else
    let width : Int := (num.log2 : Int) - (den.log2 : Int)
    let low := max (width - 53) (-1074)
    let (n, d) := scaled num den low
    let exponent := if n / d < leastOver then low else low + 1
    let (n, d) := scaled num den exponent
    assemble negative (roundQuotient n d) exponent

/-- The number nearest to `digits · 10 ^ power`. Powers far outside the range are decided from
the magnitude alone. -/
def ofDecimal (negative : Bool) (digits : Nat) (power : Int) : Double :=
  if digits = 0 then zero negative
  else
    let magnitude : Int := (digits.log2 : Int) * 30103 / 100000 + power
    if magnitude > 310 then .infinite negative
    else if magnitude < -330 then zero negative
    else match power with
      | .ofNat k => ofQuotient negative (digits * Nat.pow 10 k) 1
      | .negSucc k => ofQuotient negative digits (Nat.pow 10 (k + 1))

def ofInt (n : Int) : Double := ofQuotient (n < 0) n.natAbs 1

def isFinite : Double → Bool
  | .finite .. => true
  | _ => false

def isNegative : Double → Bool
  | .nan => false
  | .infinite s => s
  | .finite s .. => s

/-- A finite number as a quotient: a signed numerator and a positive denominator. -/
def quotient? : Double → Option (Int × Nat)
  | .finite s m (.ofNat k) _ => some ((if s then -1 else 1) * (m * Nat.pow 2 k : Nat), 1)
  | .finite s m (.negSucc k) _ => some ((if s then -1 else 1) * (m : Int), Nat.pow 2 (k + 1))
  | _ => none

/-- The order of an integer quotient and another. -/
def compareQuotients (a b : Int × Nat) : Ordering :=
  compare (a.1 * b.2) (b.1 * a.2)

/-- The order of two numbers, none when either is not a number. -/
def compare? : Double → Double → Option Ordering
  | .nan, _ => none
  | _, .nan => none
  | .infinite s, .infinite t => some (if s = t then .eq else if s then .lt else .gt)
  | .infinite s, _ => some (if s then .lt else .gt)
  | _, .infinite t => some (if t then .gt else .lt)
  | x, y => do some (compareQuotients (← x.quotient?) (← y.quotient?))

/-- The order of a number and an integer, which is compared exactly and not rounded first. -/
def compareInt? (x : Double) (n : Int) : Option Ordering :=
  match x with
  | .nan => none
  | .infinite s => some (if s then .lt else .gt)
  | x => do some (compareQuotients (← x.quotient?) (n, 1))

/-- The integer part, toward zero. -/
def truncate? (x : Double) : Option Int :=
  x.quotient?.map fun (n, d) => n.tdiv d

/-- The integer a number is, if it is one. -/
def integer? (x : Double) : Option Int :=
  match x.quotient? with
  | some (n, d) => if n % d = 0 then some (n / d) else none
  | none => none

def negate : Double → Double
  | .nan => .nan
  | .infinite s => .infinite (!s)
  | .finite s m e h => .finite (!s) m e h

/-- The number, a zero without its sign. -/
def unsignedZero : Double → Double
  | .finite _ 0 _ _ => zero false
  | x => x

/-- A signed quotient rounded; a zero takes the given sign. -/
def ofSigned (zeroNegative : Bool) (num : Int) (den : Nat) : Double :=
  if num = 0 then zero zeroNegative else ofQuotient (num < 0) num.natAbs den

def add : Double → Double → Double
  | .nan, _ => .nan
  | _, .nan => .nan
  | .infinite s, .infinite t => if s = t then .infinite s else .nan
  | .infinite s, _ => .infinite s
  | _, .infinite t => .infinite t
  | x, y =>
    match x.quotient?, y.quotient? with
    | some (a, b), some (c, d) =>
      ofSigned (x.isNegative && y.isNegative) (a * d + c * b) (b * d)
    | _, _ => .nan

def mul : Double → Double → Double
  | .nan, _ => .nan
  | _, .nan => .nan
  | x, y =>
    let s := x.isNegative != y.isNegative
    match x.quotient?, y.quotient? with
    | some (a, b), some (c, d) => ofSigned s (a * c) (b * d)
    | some (a, _), none => if a = 0 then .nan else .infinite s
    | none, some (c, _) => if c = 0 then .nan else .infinite s
    | none, none => .infinite s

end Double

end Records.Number
