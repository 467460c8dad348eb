import Records.Calendar.Iso
import Records.Store.Cell
import Records.Value.Written

/-!
Writing values for a store. A codec turns a value into the form that its type has in a table; the
form is then bound as a cell. The two steps fail in different ways.
-/
namespace Records

open Records.Number (Double)

/-- Why a codec refuses a value. -/
inductive CodecError
  | unhashable (v : Value)
  | outsideBoolean (n : Int)
  | notBoolean (v : Value)
  | momentWanted
  | dateWanted
  | unreadableNumber (v : Value)
  | numberWanted (v : Value)
  | numberTooLarge
deriving DecidableEq

/-- Why a form cannot be bound. -/
inductive BindError
  | unsupported
  | integerTooLarge
deriving DecidableEq

inductive StoreError
  | codec (e : CodecError)
  | bind (e : BindError)
deriving DecidableEq

def CodecError.message : CodecError → String
  | .unhashable v => "unhashable type: '" ++ v.typeName ++ "'"
  | .outsideBoolean n => "Value " ++ toString n ++ " is not None, True, or False"
  | .notBoolean v => "Not a boolean value: " ++ v.literal
  | .momentWanted =>
    "SQLite DateTime type only accepts Python datetime and date objects as input."
  | .dateWanted => "SQLite Date type only accepts Python date objects as input."
  | .unreadableNumber v => "could not convert string to float: " ++ v.literal
  | .numberWanted v =>
    "float() argument must be a string or a real number, not '" ++ v.typeName ++ "'"
  | .numberTooLarge => "int too large to convert to float"

inductive Codec
  | raw
  | boolean
  | number
  | date
  | moment
deriving DecidableEq

/-- The codec of a column. -/
def Kind.codec : Kind → Codec
  | .text => .raw
  | .int => .raw
  | .float => .number
  | .bool => .boolean
  | .date => .date
  | .moment => .moment
  | .untyped => .raw

/-- The codec of a value in a condition on a column. A value whose type says nothing is written as
the column's values are; an untyped column takes everything as it is. -/
def Codec.ofValue (k : Kind) (v : Value) : Codec :=
  if k = .untyped then .raw
  else match v with
    | .bool _ => .boolean
    | .int _ => .raw
    | .float _ => .number
    | .text _ => .raw
    | .bytes _ => .raw
    | .date _ => .date
    | .moment _ => .moment
    | _ => k.codec

def encodeBoolean : Value → Except CodecError Value
  | .null => .ok .null
  | .bool b => .ok (.bool b)
  | .int n => if n = 0 ∨ n = 1 then .ok (.int n) else .error (.outsideBoolean n)
  | .float x =>
    if x.compareInt? 0 = some .eq ∨ x.compareInt? 1 = some .eq then .ok (.float x)
    else .error (.notBoolean (.float x))
  | .list xs => .error (.unhashable (.list xs))
  | .object es => .error (.unhashable (.object es))
  | v => .error (.notBoolean v)

/-- An integer is rounded to a number unless it is past the largest one; a text is read. -/
def encodeNumber : Value → Except CodecError Value
  | .null => .ok .null
  | .float x => .ok (.float x)
  | .bool b => .ok (.float (Double.ofInt b.toInt))
  | .int n =>
    match Double.ofInt n with
    | .infinite _ => .error .numberTooLarge
    | x => .ok (.float x)
  | .text s =>
    match Number.readDouble? s with
    | some x => .ok (.float x)
    | none => .error (.unreadableNumber (.text s))
  | .bytes b =>
    match Number.readDouble? (Text.decodeLossy b) with
    | some x => .ok (.float x)
    | none => .error (.unreadableNumber (.bytes b))
  | v => .error (.numberWanted v)

def encodeDate : Value → Except CodecError Value
  | .null => .ok .null
  | .date d => .ok (.text d.text)
  | .moment m => .ok (.text m.date.text)
  | _ => .error .dateWanted

def encodeMoment : Value → Except CodecError Value
  | .null => .ok .null
  | .moment m => .ok (.text m.stored)
  | .date d => .ok (.text (Calendar.Moment.ofDate d).stored)
  | _ => .error .momentWanted

/-- The form a value has in a table. -/
def Codec.encode : Codec → Value → Except CodecError Value
  | .raw => .ok
  | .boolean => encodeBoolean
  | .number => encodeNumber
  | .date => encodeDate
  | .moment => encodeMoment

/-- The cell of a form. Not-a-number has no cell but null. -/
def Cell.bind : Value → Except BindError Cell
  | .null => .ok .null
  | .bool b => .ok (.integer b.toInt)
  | .int n => if fitsInteger n then .ok (.integer n) else .error .integerTooLarge
  | .float .nan => .ok .null
  | .float x => .ok (.real x)
  | .text s => .ok (.text s)
  | .bytes b => .ok (.blob b)
  | .date d => .ok (.text d.text)
  | .moment m => .ok (.text m.spaced)
  | .list _ => .error .unsupported
  | .tuple _ => .error .unsupported
  | .object _ => .error .unsupported

/-- A value of a statement and the codec that writes it. -/
structure Parameter where
  codec : Codec
  value : Value
deriving DecidableEq

def Parameter.cell (p : Parameter) : Except StoreError Cell := do
  let form ← (p.codec.encode p.value).mapError .codec
  (Cell.bind form).mapError .bind

def encodeAll (ps : List Parameter) : Except StoreError (List Value) :=
  ps.mapM fun p => (p.codec.encode p.value).mapError .codec

def bindForms (forms : List Value) : Except StoreError (List Cell) :=
  forms.mapM fun form => (Cell.bind form).mapError .bind

/-- The cells of a statement's parameters. Every value is encoded before any is bound. -/
def bindAll (ps : List Parameter) : Except StoreError (List Cell) := do
  bindForms (← encodeAll ps)

/-- The value a column's cell stands for. -/
def Cell.decode (k : Kind) : Cell → Value
  | .null => .null
  | .integer n => if k = .bool then .bool (n != 0) else .int n
  | .real x => if k = .bool then .bool (x.compareInt? 0 != some .eq) else .float x
  | .blob b => .bytes b
  | .text s =>
    match k with
    | .date => ((Calendar.readDate? s).map Value.date).getD (.text s)
    | .moment => ((Calendar.readMoment? s).map Value.moment).getD (.text s)
    | _ => .text s

end Records
