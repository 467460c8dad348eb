import Records.Record.Serialize

/-!
Views of a record. A view carries its own visibility and leaves the record as it is; each change
makes a new view.
-/
namespace Records

structure RecordView where
  record : Ref
  visibility : Visibility := {}
deriving DecidableEq

namespace RecordView

def setAppends (v : RecordView) (appends : List String) : RecordView :=
  { v with visibility := { v.visibility with appends := some appends } }

def makeHidden (v : RecordView) (hidden : List String) : RecordView :=
  { v with visibility := { v.visibility with hidden := v.visibility.hidden ++ hidden } }

def hiddenFields (v : RecordView) (m : Model) : List String := m.hidden ++ v.visibility.hidden

def appendedFields (v : RecordView) (m : Model) : List String :=
  v.visibility.appends.getD m.appends

def data (v : RecordView) (g : Graph) : Except MissingAttribute Datum :=
  g.data v.record v.visibility

/-- Attributes read through to the record. -/
def attr? (v : RecordView) (g : Graph) (name : String) : Except MissingAttribute Datum :=
  match g.node? v.record with
  | some n => n.attr? name
  | none => .ok (.value .null)

def label (n : Node) : String := "RecordView(" ++ n.label ++ ")"

end RecordView

end Records
