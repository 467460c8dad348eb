import Records.Value

/-!
The operators of a filter and the keys that name them.
-/
namespace Records.Filter

inductive Operator
  | equal
  | notEqual
  | like
  | less
  | greater
  | range
  | within
  | or
  | relation
deriving DecidableEq

namespace Operator

def all : List Operator := [equal, notEqual, like, less, greater, range, within, or, relation]

def key : Operator → String
  | equal => "equal"
  | notEqual => "not_equal"
  | like => "like"
  | less => "less"
  | greater => "greater"
  | range => "range"
  | within => "within"
  | or => "or"
  | relation => "relation"

def ofKey? (s : String) : Option Operator := all.find? (·.key == s)

/-- The operator a key names; only a text names one. -/
def ofValue? : Value → Option Operator
  | .text s => ofKey? s
  | _ => none

theorem ofKey?_key (o : Operator) : ofKey? o.key = some o := by cases o <;> decide

theorem key_of_ofKey? {s : String} {o : Operator} (h : ofKey? s = some o) : o.key = s := by
  have := List.find?_some h
  simpa using this

end Operator

end Records.Filter
