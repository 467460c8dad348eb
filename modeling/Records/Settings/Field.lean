import Records.Number.Numeral
import Records.Text.Utf
import Records.Value

/-!
Fields of settings and of requests read from loosely typed values: integers, booleans and texts.
-/
namespace Records.Settings

open Records.Number (Numeral dropSeparators isNumeralBlank maxIntegerDigits)
open Records.Text (asciiDigit? trimBy)

inductive FieldError
  | intParsing
  | intParsingSize
  | intType
  | intFromFloat
  | finiteNumber
  | boolParsing
  | boolType
  | stringType
  | stringUnicode
  | extraForbidden
  | tooSmall
  | tooLarge
deriving DecidableEq

/-- The name an error goes by in answers. -/
def FieldError.code : FieldError → String
  | .intParsing => "int_parsing"
  | .intParsingSize => "int_parsing_size"
  | .intType => "int_type"
  | .intFromFloat => "int_from_float"
  | .finiteNumber => "finite_number"
  | .boolParsing => "bool_parsing"
  | .boolType => "bool_type"
  | .stringType => "string_type"
  | .stringUnicode => "string_unicode"
  | .extraForbidden => "extra_forbidden"
  | .tooSmall => "greater_than_equal"
  | .tooLarge => "less_than_equal"

/-- The characters before a point that only zeros follow. -/
def dropZeroFraction (cs : List Char) : List Char :=
  if (cs.dropWhile (· != '.')).tail.all (· == '0') then cs.takeWhile (· != '.') else cs

/-- The integer a text is: blanks around, a sign, single underscores between digits, and a fraction
of zeros are allowed. -/
def readInt (s : String) : Except FieldError Int :=
  let cs := trimBy isNumeralBlank s.toList
  if cs.length > maxIntegerDigits then .error .intParsingSize
  else
    match dropSeparators asciiDigit? (dropZeroFraction cs) >>= Numeral.read? asciiDigit? with
    | some n => if n.isIntegral then .ok n.integerPart else .error .intParsing
    | none => .error .intParsing

def trueWords : List String := ["1", "t", "y", "on", "yes", "true"]

def falseWords : List String := ["0", "f", "n", "off", "no", "false"]

def readBool (s : String) : Except FieldError Bool :=
  let word := s.map Char.toLower
  if word ∈ trueWords then .ok true
  else if word ∈ falseWords then .ok false
  else .error .boolParsing

/-- An integer as a boolean when it is one or zero. -/
def boolOfInt (n : Int) : Except FieldError Bool :=
  if n = 0 then .ok false else if n = 1 then .ok true else .error .boolParsing

/-- Octets as the text they encode. -/
def decodeText? (b : List UInt8) : Option String := Text.ofPieces? (Text.utf8Pieces false none b)

def intField : Value → Except FieldError Int
  | .int n => .ok n
  | .bool b => .ok b.toInt
  | .float x =>
    if !x.isFinite then .error .finiteNumber
    else match x.integer? with
      | some n =>
        if -9223372036854775808 < n ∧ n < 9223372036854775808 then .ok n else .error .intParsingSize
      | none => .error .intFromFloat
  | .text s => readInt s
  | .bytes b =>
    match decodeText? b with
    | some s => readInt s
    | none => .error .intParsing
  | _ => .error .intType

def boolField : Value → Except FieldError Bool
  | .bool b => .ok b
  | .int n => boolOfInt n
  | .float x =>
    match x.integer? with
    | some n => boolOfInt n
    | none => .error .boolType
  | .text s => readBool s
  | .bytes b =>
    match decodeText? b with
    | some s => readBool s
    | none => .error .boolParsing
  | _ => .error .boolType

def textField : Value → Except FieldError String
  | .text s => .ok s
  | .bytes b =>
    match decodeText? b with
    | some s => .ok s
    | none => .error .stringUnicode
  | _ => .error .stringType

end Records.Settings
