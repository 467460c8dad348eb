import Records.Value
import Records.Text.Quoted

/-!
Text of values. The literal form quotes text and names types; the display form is the literal one
except that text stands for itself and dates are written in their international form.
-/
namespace Records.Value

open Records.Calendar (Date Moment)

def dateLiteral (d : Date) : String :=
  "datetime.date(" ++ toString d.year ++ ", " ++ toString d.month ++ ", " ++ toString d.day ++ ")"

/-- A span in whole days, seconds and microseconds, the parts that are zero left out. -/
def spanLiteral (micros : Int) : String :=
  let days := micros.fdiv 86400000000
  let rest := micros.fmod 86400000000
  let part (name : String) (n : Int) : List String :=
    if n = 0 then [] else [name ++ "=" ++ toString n]
  let parts := part "days" days ++ part "seconds" (rest / 1000000) ++
    part "microseconds" (rest % 1000000)
  "datetime.timedelta(" ++ (if parts.isEmpty then "0" else ", ".intercalate parts) ++ ")"

def zoneLiteral (micros : Int) : String :=
  if micros = 0 then "datetime.timezone.utc"
  else "datetime.timezone(" ++ spanLiteral micros ++ ")"

def momentLiteral (m : Moment) : String :=
  let t := m.time
  let fraction := if t.micro.val = 0 then [] else [toString t.micro.val]
  let seconds := if t.second.val = 0 ∧ fraction.isEmpty then [] else [toString t.second.val]
  let zone := match m.offset with
    | none => []
    | some o => ["tzinfo=" ++ zoneLiteral o.micros]
  "datetime.datetime(" ++ ", ".intercalate
    ([toString m.date.year, toString m.date.month, toString m.date.day, toString t.hour.val,
      toString t.minute.val] ++ seconds ++ fraction ++ zone) ++ ")"

def boolLiteral (b : Bool) : String := if b then "True" else "False"

/-- A tuple of one item keeps its comma. -/
def tupleText (items : List String) : String :=
  match items with
  | [item] => "(" ++ item ++ ",)"
  | items => "(" ++ ", ".intercalate items ++ ")"

mutual

def literal : Value → String
  | null => "None"
  | bool b => boolLiteral b
  | int n => toString n
  | float x => x.literal
  | text s => Records.Text.quoted s
  | bytes b => Records.Text.quotedBytes b
  | date d => dateLiteral d
  | moment m => momentLiteral m
  | list xs => "[" ++ ", ".intercalate (literals xs) ++ "]"
  | tuple xs => tupleText (literals xs)
  | object es => "\x7b" ++ ", ".intercalate (entryLiterals es) ++ "\x7d"

def literals : List Value → List String
  | [] => []
  | x :: xs => literal x :: literals xs

def entryLiterals : List (String × Value) → List String
  | [] => []
  | (k, x) :: es => (Records.Text.quoted k ++ ": " ++ literal x) :: entryLiterals es

end

def display : Value → String
  | text s => s
  | date d => d.text
  | moment m => m.spaced
  | v => literal v

end Records.Value
