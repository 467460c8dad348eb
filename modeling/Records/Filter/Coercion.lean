import Records.Calendar.Iso
import Records.Log
import Records.Schema
import Records.Text.Blank
import Records.Text.LowerCase

/-!
Texts in a filter as values of a column: dates, moments and booleans are read, and a text that
cannot be read drops its condition.
-/
namespace Records.Filter

def trueWords : List String := ["1", "true", "yes", "on"]

def falseWords : List String := ["0", "false", "no", "off"]

/-- The boolean a word stands for, blanks and case aside. -/
def readBoolean? (s : String) : Option Bool :=
  let word := Text.lower (Text.trim s)
  if word ∈ trueWords then some true else if word ∈ falseWords then some false else none

/-- A text as a value of a kind. -/
def coerceText? (k : Kind) (s : String) : Option Value :=
  match k with
  | .moment => (Calendar.readMoment? s).map .moment
  | .date => (Calendar.readDate? s).map .date
  | .bool => (readBoolean? s).map .bool
  | _ => some (.text s)

/-- A value of a filter as a value of a kind; only texts change. -/
def coerceValue? (k : Kind) : Value → Option Value
  | .text s => coerceText? k s
  | v => some v

/-- The entry made when a text is no value of a column. -/
def unreadableEntry (c : Column) (v : Value) : LogEntry :=
  let what := if c.kind = .bool then "boolean" else "date"
  ⟨.warning, .filters, "Unparseable " ++ what ++ " filter value skipped",
    [("field", .text c.name), ("value", v.truncated)]⟩

def coerce {ε : Type} (c : Column) (v : Value) : Reported ε (Option Value) :=
  match coerceValue? c.kind v with
  | some w => pure (some w)
  | none => do
    Reported.entry (unreadableEntry c v)
    return none

@[simp] theorem outcome_coerce {ε : Type} (c : Column) (v : Value) :
    (coerce c v : Reported ε _).outcome = .ok (coerceValue? c.kind v) := by
  unfold coerce
  split <;> simp_all [Except.bind]

end Records.Filter
