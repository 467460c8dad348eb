import Records.Value.Equality

/-!
Arithmetic on values that are numbers: integers exactly, and as binary numbers where one of the two
is one. A boolean counts as one or zero.
-/
namespace Records

open Records.Number (Double)

inductive ArithmeticError
  /-- Two values without an order, and the comparison that was asked for. -/
  | unordered (symbol : String) (left right : Value)
  | notNumbers (symbol : String) (left right : Value)
  | divisionByZero (float : Bool)
deriving DecidableEq

def ArithmeticError.message : ArithmeticError → String
  | .unordered symbol a b =>
    "'" ++ symbol ++ "' not supported between instances of '" ++ a.typeName ++ "' and '" ++
      b.typeName ++ "'"
  | .notNumbers symbol a b =>
    "unsupported operand type(s) for " ++ symbol ++ ": '" ++ a.typeName ++ "' and '" ++
      b.typeName ++ "'"
  | .divisionByZero float =>
    if float then "float floor division by zero" else "integer division or modulo by zero"

namespace Value.Numeric

def toDouble : Numeric → Double
  | .int n => Double.ofInt n
  | .float x => x

def toValue : Numeric → Value
  | .int n => .int n
  | .float x => .float x

def add : Numeric → Numeric → Numeric
  | .int a, .int b => .int (a + b)
  | a, b => .float (a.toDouble.add b.toDouble)

def sub : Numeric → Numeric → Numeric
  | .int a, .int b => .int (a - b)
  | a, b => .float (a.toDouble.add b.toDouble.negate)

def mul : Numeric → Numeric → Numeric
  | .int a, .int b => .int (a * b)
  | a, b => .float (a.toDouble.mul b.toDouble)

/-- The quotient rounded toward negative infinity. -/
def floorDiv : Numeric → Numeric → Except ArithmeticError Numeric
  | .int a, .int b => if b = 0 then .error (.divisionByZero false) else .ok (.int (a.fdiv b))
  | a, b =>
    match a.toDouble.quotient?, b.toDouble.quotient? with
    | some (p, q), some (r, s) =>
      if r = 0 then .error (.divisionByZero true)
      else .ok (.float (Double.ofInt ((p * s).fdiv (q * r))))
    | _, _ => .ok (.float .nan)

end Value.Numeric

namespace Value

def isGreater (a b : Value) : Except ArithmeticError Bool :=
  match a.numeric?, b.numeric? with
  | some x, some y => .ok (x.compare? y == some .gt)
  | _, _ => .error (.unordered ">" a b)

def isLess (a b : Value) : Except ArithmeticError Bool :=
  match a.numeric?, b.numeric? with
  | some x, some y => .ok (x.compare? y == some .lt)
  | _, _ => .error (.unordered "<" a b)

/-- The second value if it is greater, else the first. -/
def maximum (a b : Value) : Except ArithmeticError Value := do
  return if ← isGreater b a then b else a

/-- The second value if it is less, else the first. -/
def minimum (a b : Value) : Except ArithmeticError Value := do
  return if ← isLess b a then b else a

def operate (symbol : String) (f : Numeric → Numeric → Except ArithmeticError Numeric)
    (a b : Value) :
    Except ArithmeticError Value :=
  match a.numeric?, b.numeric? with
  | some x, some y => (f x y).map Numeric.toValue
  | _, _ => .error (.notNumbers symbol a b)

def plus : Value → Value → Except ArithmeticError Value := operate "+" fun x y => .ok (x.add y)

def minus : Value → Value → Except ArithmeticError Value := operate "-" fun x y => .ok (x.sub y)

def times : Value → Value → Except ArithmeticError Value := operate "*" fun x y => .ok (x.mul y)

def floorQuotient : Value → Value → Except ArithmeticError Value := operate "//" Numeric.floorDiv

end Value

end Records
