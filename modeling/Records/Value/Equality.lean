import Records.Value

/-!
Equality of values by what they mean: numbers and booleans are compared by their numeric value,
moments by their instant, objects without regard to the order of their entries.
-/
namespace Records.Value

open Records.Number (Double)

inductive Numeric
  | int (n : Int)
  | float (x : Double)

def numeric? : Value → Option Numeric
  | bool b => some (.int b.toInt)
  | int n => some (.int n)
  | float x => some (.float x)
  | _ => none

/-- The exact order of two numbers, none beside not-a-number. -/
def Numeric.compare? : Numeric → Numeric → Option Ordering
  | .int a, .int b => some (compare a b)
  | .int a, .float y => (y.compareInt? a).map Ordering.swap
  | .float x, .int b => x.compareInt? b
  | .float x, .float y => x.compare? y

mutual

def same : Value → Value → Bool
  | null, null => true
  | text a, text b => a == b
  | bytes a, bytes b => a == b
  | date a, date b => a == b
  | moment a, moment b => a.same b
  | list a, list b => sameItems a b
  | tuple a, tuple b => sameItems a b
  | object a, object b => a.length == b.length && sameEntries a b
  | a, b =>
    match a.numeric?, b.numeric? with
    | some x, some y => x.compare? y == some .eq
    | _, _ => false

def sameItems : List Value → List Value → Bool
  | [], [] => true
  | a :: as, b :: bs => same a b && sameItems as bs
  | _, _ => false

/-- Whether every entry has an equal one under the same key on the other side. -/
def sameEntries : List (String × Value) → List (String × Value) → Bool
  | [], _ => true
  | (k, a) :: as, bs =>
    (match lookup? k bs with
      | some b => same a b
      | none => false) && sameEntries as bs

end

end Records.Value
