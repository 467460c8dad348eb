import Records.Number.Double

/-!
Decimal forms of a number: the fewest digits that read back, a fixed number of significant digits,
and a fixed number of places.
-/
namespace Records.Number

/-- The number `digits · 10 ^ power`. -/
structure Decimal where
  digits : Nat
  power : Int
deriving DecidableEq, Repr

/-- Which way an exact half goes. -/
inductive Tie
  | toEven
  | up
deriving DecidableEq

def roundDecimal (tie : Tie) (num den : Nat) : Nat :=
  match tie with
  | .toEven => roundQuotient num den
  | .up => (2 * num + den) / (2 * den)

namespace Decimal

/-- A positive quotient over a power of ten, as a quotient. -/
def scaled (num den : Nat) : Int → Nat × Nat
  | .ofNat k => (num, den * Nat.pow 10 k)
  | .negSucc k => (num * Nat.pow 10 (k + 1), den)

/-- Whether a power of ten is at most a positive quotient. -/
def powerLe (num den : Nat) (k : Int) : Bool :=
  let (n, d) := scaled num den k
  d ≤ n

/-- The largest power of ten at most a positive quotient. The binary width gives it up to three
steps. -/
def exponentOf (num den : Nat) : Int :=
  let width : Int := (num.log2 : Int) - (den.log2 : Int) - 1
  let start := width * 30103 / 100000 - 1
  if powerLe num den (start + 3) then start + 3
  else if powerLe num den (start + 2) then start + 2
  else if powerLe num den (start + 1) then start + 1
  else start

/-- Trailing zeros moved into the power. -/
def normalize (d : Decimal) : Decimal :=
  go d.digits d.power d.digits.log2
where
  go (digits : Nat) (power : Int) : Nat → Decimal
    | 0 => ⟨digits, power⟩
    | fuel + 1 =>
      if digits ≠ 0 ∧ digits % 10 = 0 then go (digits / 10) (power + 1) fuel else ⟨digits, power⟩

/-- The decimals of one grid next to a positive quotient, the nearer one first. -/
def neighbours (num den : Nat) (power : Int) : List Decimal :=
  let (n, d) := scaled num den power
  let low := n / d
  let near := roundQuotient n d
  [⟨near, power⟩, ⟨2 * low + 1 - near, power⟩]

/-- The fewest digits, at most seventeen, that round to the number; of two such decimals the
nearer. -/
def shortest (mantissa : Nat) (exponent : Int) : Decimal :=
  let (num, den) := Double.scaled mantissa 1 (-exponent)
  let top := exponentOf num den
  let value := Double.ofQuotient false num den
  let hit (count : Nat) : Option Decimal :=
    (neighbours num den (top - count)).find? fun d =>
      Double.ofDecimal false d.digits d.power = value
  ((List.range 17).findSome? hit).elim ⟨mantissa, 0⟩ normalize

/-- The positive quotient rounded to `count` significant digits. -/
def significant (tie : Tie) (count : Nat) (num den : Nat) : Decimal :=
  let power := exponentOf num den - (count - 1 : Nat)
  let (n, d) := scaled num den power
  ⟨roundDecimal tie n d, power⟩

/-- The quotient in units of `10 ^ (-places)`, rounded. -/
def inPlaces (tie : Tie) (places : Nat) (num den : Nat) : Nat :=
  roundDecimal tie (num * Nat.pow 10 places) den

end Decimal

end Records.Number
