import Records.Log
import Records.Number.Formatted
import Records.Text.Utf

/-!
Message templates. A percent sign begins a directive: an optional key in parentheses, flags, a
width, a precision and a conversion. Arguments are taken in order, or by key from an object.
-/
namespace Records.Template

open Records.Number (Double leftZeros fixedText exponentialText generalText)

inductive TemplateError
  | notEnough
  | notAllConverted
  | incomplete
  | incompleteKey
  | mappingWanted
  | missingKey (key : String)
  | unsupported (conversion : Char) (place : Nat)
  | widthWanted
  /-- A width or a precision past what can be counted, written out or taken from an argument. -/
  | tooBig (precision : Bool)
  | argumentTooBig (precision : Bool)
  | numberWanted (conversion : Char) (v : Value)
  | integerWanted (conversion : Char) (v : Value)
  | realWanted (v : Value)
  | charWanted
  | charOutOfRange
  | notANumber
  | infinite
deriving DecidableEq

def TemplateError.message : TemplateError → String
  | .notEnough => "not enough arguments for format string"
  | .notAllConverted => "not all arguments converted during string formatting"
  | .incomplete => "incomplete format"
  | .incompleteKey => "incomplete format key"
  | .mappingWanted => "format requires a mapping"
  | .missingKey key => Text.quoted key
  | .unsupported c place =>
    let shown := if 31 ≤ c.toNat ∧ c.toNat ≤ 126 then c else '?'
    "unsupported format character '" ++ String.singleton shown ++ "' (0x" ++
      String.ofList (Nat.toDigits 16 c.toNat) ++ ") at index " ++ toString place
  | .widthWanted => "* wants int"
  | .tooBig precision => (if precision then "precision" else "width") ++ " too big"
  | .argumentTooBig precision =>
    "Python int too large to convert to C " ++ (if precision then "int" else "ssize_t")
  | .numberWanted c v =>
    "%" ++ String.singleton c ++ " format: a real number is required, not " ++ v.typeName
  | .integerWanted c v =>
    "%" ++ String.singleton c ++ " format: an integer is required, not " ++ v.typeName
  | .realWanted v => "must be real number, not " ++ v.typeName
  | .charWanted => "%c requires int or char"
  | .charOutOfRange => "%c arg not in range(0x110000)"
  | .notANumber => "cannot convert float NaN to integer"
  | .infinite => "cannot convert float infinity to integer"

/-- What is left to take: arguments in order, and the object that keys look into. -/
structure Arguments where
  rest : List Value
  named : Option (List (String × Value))

structure Flags where
  left : Bool := false
  plus : Bool := false
  blank : Bool := false
  alternate : Bool := false
  zero : Bool := false

def Flags.add? (f : Flags) (c : Char) : Option Flags :=
  if c = '-' then some { f with left := true }
  else if c = '+' then some { f with plus := true }
  else if c = ' ' then some { f with blank := true }
  else if c = '#' then some { f with alternate := true }
  else if c = '0' then some { f with zero := true }
  else none

structure Directive where
  flags : Flags
  width : Nat
  precision : Option Nat

def Arguments.take (a : Arguments) : Except TemplateError (Value × Arguments) :=
  match a.rest with
  | v :: rest => .ok (v, { a with rest := rest })
  | [] => .error .notEnough

/-- The characters up to the parenthesis that closes a key, and how many there are with it. -/
def keyChars (depth : Nat) : List Char → Option (List Char × Nat)
  | [] => none
  | c :: cs =>
    if c = ')' ∧ depth = 0 then some ([], 1)
    else
      let depth := if c = '(' then depth + 1 else if c = ')' then depth - 1 else depth
      (keyChars depth cs).map fun (key, n) => (c :: key, n + 1)

/-- The flags at the front, and how many characters they are. -/
def takeFlags (f : Flags) : List Char → Flags × Nat
  | [] => (f, 0)
  | c :: cs =>
    match f.add? c with
    | some f => let (f, n) := takeFlags f cs; (f, n + 1)
    | none => (f, 0)

/-- A width or a precision: digits, or a star that takes an argument. -/
def takeAmount (precision : Bool) (a : Arguments) (cs : List Char) :
    Except TemplateError (Option Int × Nat × Arguments) :=
  let most : Int := if precision then 2147483647 else 9223372036854775807
  match cs with
  | '*' :: _ => do
    let (v, a) ← a.take
    match v with
    | .int n => if n.natAbs ≤ most then return (some n, 1, a) else throw (.argumentTooBig precision)
    | .bool b => return (some b.toInt, 1, a)
    | _ => throw .widthWanted
  | cs =>
    let digits := cs.takeWhile Char.isDigit
    let n : Int := (digits.foldl (fun n c => 10 * n + (c.toNat - 48)) 0 : Nat)
    if digits.isEmpty then .ok (none, 0, a)
    else if n ≤ most then .ok (some n, digits.length, a)
    else .error (.tooBig precision)

def signText (f : Flags) (negative : Bool) : String :=
  if negative then "-" else if f.plus then "+" else if f.blank then " " else ""

/-- A text filled up to the width; zeros go between the mark before a number and its digits. -/
def fill (d : Directive) (zeros : Bool) (mark body : String) : String :=
  let missing := d.width - (mark.length + body.length)
  if d.flags.left then mark ++ body ++ "".pushn ' ' missing
  else if zeros && d.flags.zero then mark ++ "".pushn '0' missing ++ body
  else "".pushn ' ' missing ++ mark ++ body

def baseText (base : Nat) (n : Nat) : String := String.ofList (Nat.toDigits base n)

def integerText (d : Directive) (conversion : Char) (n : Int) : String :=
  let digits := match conversion with
    | 'o' => baseText 8 n.natAbs
    | 'x' => baseText 16 n.natAbs
    | 'X' => (baseText 16 n.natAbs).map Char.toUpper
    | _ => toString n.natAbs
  let base := if d.flags.alternate then
      (if conversion = 'o' then "0o" else if conversion = 'x' then "0x"
        else if conversion = 'X' then "0X" else "")
    else ""
  fill d true (signText d.flags (n < 0) ++ base) (leftZeros (d.precision.getD 0) digits)

/-- The integer a conversion makes of a number. -/
def integerOf (conversion : Char) (v : Value) : Except TemplateError Int :=
  let decimal := conversion = 'd' ∨ conversion = 'i' ∨ conversion = 'u'
  match v with
  | .int n => .ok n
  | .bool b => .ok b.toInt
  | .float x =>
    if decimal then
      match x with
      | .nan => .error .notANumber
      | .infinite _ => .error .infinite
      | x => .ok (x.truncate?.getD 0)
    else .error (.integerWanted conversion v)
  | v =>
    if decimal then .error (.numberWanted conversion v) else .error (.integerWanted conversion v)

def realText (d : Directive) (conversion : Char) (x : Double) : String :=
  let precision := d.precision.getD 6
  let body := match x with
    | .nan => "nan"
    | .infinite _ => "inf"
    | .finite _ m e _ =>
      let (num, den) := Double.scaled m 1 (-e)
      if conversion = 'f' ∨ conversion = 'F' then fixedText d.flags.alternate precision num den
      else if conversion = 'e' ∨ conversion = 'E' then
        exponentialText d.flags.alternate precision num den
      else generalText d.flags.alternate precision num den
  let body := if conversion.isUpper then body.map Char.toUpper else body
  fill d true (signText d.flags x.isNegative) body

def realOf (v : Value) : Except TemplateError Double :=
  match v with
  | .float x => .ok x
  | .int n => .ok (Double.ofInt n)
  | .bool b => .ok (Double.ofInt b.toInt)
  | v => .error (.realWanted v)

def charOf : Value → Except TemplateError String
  | .text s => if s.length = 1 then .ok s else .error .charWanted
  | .int n =>
    if 0 ≤ n ∧ n < 0x110000 then .ok (String.singleton (Text.charOrReplacement n.toNat))
    else .error .charOutOfRange
  | .bool b => .ok (String.singleton (Char.ofNat b.toNat))
  | _ => .error .charWanted

/-- A text with every character past ASCII escaped. -/
def asciiText (s : String) : String :=
  String.ofList (s.toList.flatMap fun c =>
    if c.toNat < 0x80 then [c] else Text.escapeUnprintable c)

def cut (d : Directive) (s : String) : String :=
  match d.precision with
  | some n => String.ofList (s.toList.take n)
  | none => s

/-- A value in the form that a conversion asks for; `place` is where the conversion stands. -/
def convert (d : Directive) (conversion : Char) (place : Nat) (v : Value) :
    Except TemplateError String :=
  if conversion = 's' then .ok (fill d false "" (cut d v.display))
  else if conversion = 'r' then .ok (fill d false "" (cut d v.literal))
  else if conversion = 'a' then .ok (fill d false "" (cut d (asciiText v.literal)))
  else if conversion ∈ ['d', 'i', 'u', 'o', 'x', 'X'] then
    (integerOf conversion v).map (integerText d conversion)
  else if conversion ∈ ['e', 'E', 'f', 'F', 'g', 'G'] then
    (realOf v).map (realText d conversion)
  else if conversion = 'c' then (charOf v).map (fill d false "")
  else .error (.unsupported conversion place)

/-- The text of the directive whose characters follow a percent sign at `place`, how many of them
it takes, and the arguments it leaves. -/
def directive (a : Arguments) (place : Nat) (cs : List Char) :
    Except TemplateError (String × Nat × Arguments) := do
  let (a, keyLength) ← match cs with
    | '(' :: rest =>
      match a.named with
      | none => throw .mappingWanted
      | some entries =>
        match keyChars 0 rest with
        | none => throw .incompleteKey
        | some (key, n) =>
          let key := String.ofList key
          match Value.lookup? key entries with
          | none => throw (.missingKey key)
          | some v => pure ({ a with rest := [v] }, n + 1)
    | _ => pure (a, 0)
  let (flags, n) := takeFlags {} (cs.drop keyLength)
  let used := keyLength + n
  let (width, n, a) ← takeAmount false a (cs.drop used)
  let used := used + n
  let flags := if width.getD 0 < 0 then { flags with left := true } else flags
  let (precision, used, a) ← match cs.drop used with
    | '.' :: rest => do
      let (p, n, a) ← takeAmount true a rest
      pure (some (p.getD 0).toNat, used + 1 + n, a)
    | _ => pure (none, used, a)
  let used := match cs.drop used with
    | c :: _ => if c = 'h' ∨ c = 'l' ∨ c = 'L' then used + 1 else used
    | [] => used
  match cs.drop used with
  | [] => throw .incomplete
  | conversion :: _ =>
    let (v, a) ← a.take
    let text ← convert ⟨flags, (width.getD 0).natAbs, precision⟩ conversion (place + 1 + used) v
    return (text, used + 1, a)

/-- The template with its directives filled in; every argument in order has to be used. -/
def expand (a : Arguments) (place : Nat) : List Char → Except TemplateError (List Char)
  | [] => if a.named.isNone ∧ ¬ a.rest.isEmpty then .error .notAllConverted else .ok []
  | c :: cs =>
    if c = '%' ∧ cs.head? = some '%' then (expand a (place + 2) cs.tail).map ('%' :: ·)
    else if c = '%' then
      match directive a place cs with
      | .error e => .error e
      | .ok (text, used, a) => (expand a (place + 1 + used) (cs.drop used)).map (text.toList ++ ·)
    else (expand a (place + 1) cs).map (c :: ·)
termination_by cs => cs.length
decreasing_by all_goals simp; try omega

/-- The message of a template. Without arguments it is the template itself; a single object that is
not empty serves the keys. -/
def message (template : Value) (args : List Value) : Except TemplateError String :=
  let text := template.display
  match args with
  | [] => .ok text
  | [.object es] =>
    let named := if es.isEmpty then none else some es
    (expand ⟨[.object es], named⟩ 0 text.toList).map String.ofList
  | args => (expand ⟨args, none⟩ 0 text.toList).map String.ofList

end Records.Template
