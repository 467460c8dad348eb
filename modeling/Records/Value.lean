import Records.Calendar.Moment

/-!
Values as they come from decoded documents, from records and from callers. Objects keep the order
of their entries.
-/
namespace Records

open Records.Number (Double)
open Records.Calendar (Date Moment)

inductive Value
  | null
  | bool (b : Bool)
  | int (n : Int)
  | float (x : Double)
  | text (s : String)
  | bytes (b : List UInt8)
  | date (d : Date)
  | moment (m : Moment)
  | list (xs : List Value)
  | tuple (xs : List Value)
  | object (entries : List (String × Value))

namespace Value

instance : Inhabited Value := ⟨null⟩

mutual

def identical : Value → Value → Bool
  | null, null => true
  | bool a, bool b => a == b
  | int a, int b => a == b
  | float a, float b => a == b
  | text a, text b => a == b
  | bytes a, bytes b => a == b
  | date a, date b => a == b
  | moment a, moment b => a == b
  | list a, list b => identicalList a b
  | tuple a, tuple b => identicalList a b
  | object a, object b => identicalEntries a b
  | _, _ => false

def identicalList : List Value → List Value → Bool
  | [], [] => true
  | a :: as, b :: bs => identical a b && identicalList as bs
  | _, _ => false

def identicalEntries : List (String × Value) → List (String × Value) → Bool
  | [], [] => true
  | (k, a) :: as, (l, b) :: bs => k == l && (identical a b && identicalEntries as bs)
  | _, _ => false

end

mutual

theorem identical_iff : (a b : Value) → (identical a b ↔ a = b)
  | null, b => by cases b <;> simp [identical]
  | bool _, b => by cases b <;> simp [identical]
  | int _, b => by cases b <;> simp [identical]
  | float _, b => by cases b <;> simp [identical]
  | text _, b => by cases b <;> simp [identical]
  | bytes _, b => by cases b <;> simp [identical]
  | date _, b => by cases b <;> simp [identical]
  | moment _, b => by cases b <;> simp [identical]
  | list as, b => by cases b <;> simp [identical, identicalList_iff as]
  | tuple as, b => by cases b <;> simp [identical, identicalList_iff as]
  | object as, b => by cases b <;> simp [identical, identicalEntries_iff as]

theorem identicalList_iff : (as bs : List Value) → (identicalList as bs ↔ as = bs)
  | [], bs => by cases bs <;> simp [identicalList]
  | a :: as, bs => by cases bs <;> simp [identicalList, identical_iff a, identicalList_iff as]

theorem identicalEntries_iff :
    (as bs : List (String × Value)) → (identicalEntries as bs ↔ as = bs)
  | [], bs => by cases bs <;> simp [identicalEntries]
  | (k, a) :: as, bs => by
    cases bs <;> simp [identicalEntries, identical_iff a, identicalEntries_iff as, Prod.ext_iff,
      and_assoc]

end

instance : DecidableEq Value := fun a b => decidable_of_iff _ (identical_iff a b)

/-- The value under a key of an object's entries. -/
def lookup? (key : String) (entries : List (String × Value)) : Option Value :=
  (entries.find? (·.1 == key)).map (·.2)

/-- The entries with the value under a key replaced in place, or added at the end. -/
def put (key : String) (v : Value) : List (String × Value) → List (String × Value)
  | [] => [(key, v)]
  | (k, w) :: entries => if k = key then (key, v) :: entries else (k, w) :: put key v entries

/-- The first entries, overridden and extended by the second. -/
def merge (entries extra : List (String × Value)) : List (String × Value) :=
  extra.foldl (fun es (k, v) => put k v es) entries

/-- Whether a condition takes a value for true. -/
def isTruthy : Value → Bool
  | null => false
  | bool b => b
  | int n => n != 0
  | float x => match x with
    | .finite _ m _ _ => m != 0
    | _ => true
  | text s => s != ""
  | bytes b => !b.isEmpty
  | date _ => true
  | moment _ => true
  | list xs => !xs.isEmpty
  | tuple xs => !xs.isEmpty
  | object es => !es.isEmpty

/-- The name of a value's type. -/
def typeName : Value → String
  | .null => "NoneType"
  | .bool _ => "bool"
  | .int _ => "int"
  | .float _ => "float"
  | .text _ => "str"
  | .bytes _ => "bytes"
  | .date _ => "datetime.date"
  | .moment _ => "datetime.datetime"
  | .list _ => "list"
  | .tuple _ => "tuple"
  | .object _ => "dict"

/-- The items of a list or a tuple. -/
def items? : Value → Option (List Value)
  | list xs => some xs
  | tuple xs => some xs
  | _ => none

/-- What a value yields when it is walked: the items of a collection, the keys of an object, the
characters of a text, the octets of bytes. -/
def walk? : Value → Option (List Value)
  | list xs => some xs
  | tuple xs => some xs
  | object es => some (es.map fun e => text e.1)
  | text s => some (s.toList.map fun c => text (String.singleton c))
  | bytes b => some (b.map fun x => int x.toNat)
  | _ => none

/-- The entries of an object. -/
def entries? : Value → Option (List (String × Value))
  | object es => some es
  | _ => none

theorem lookup?_put_self (key : String) (v : Value) (es : List (String × Value)) :
    lookup? key (put key v es) = some v := by
  induction es with
  | nil => simp [put, lookup?]
  | cons e es ih =>
    obtain ⟨k, w⟩ := e
    by_cases h : k = key
    · simp [put, lookup?, h]
    · simpa [put, lookup?, h] using ih

theorem lookup?_put_of_ne {key other : String} (h : other ≠ key) (v : Value)
    (es : List (String × Value)) : lookup? other (put key v es) = lookup? other es := by
  induction es with
  | nil => simp [put, lookup?, Ne.symm h]
  | cons e es ih =>
    obtain ⟨k, w⟩ := e
    by_cases hk : k = key
    · simp [put, lookup?, hk, Ne.symm h]
    · by_cases ho : k = other
      · subst ho
        simp [put, lookup?, hk]
      · simpa [put, lookup?, hk, ho] using ih

end Value

end Records
