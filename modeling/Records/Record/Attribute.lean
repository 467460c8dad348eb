import Records.Record.Graph
import Records.Value.Written

/-!
Attributes of a record by name: its columns, the relations it holds and what is computed from its
columns.
-/
namespace Records

/-- No attribute has this name. -/
structure MissingAttribute where
  model : String
  name : String
deriving DecidableEq

def MissingAttribute.message (e : MissingAttribute) : String :=
  "'" ++ e.model ++ "' object has no attribute '" ++ e.name ++ "'"

/-- Data of a record: values, the records themselves, and nested data. -/
inductive Datum
  | value (v : Value)
  | record (ref : Ref)
  | list (items : List Datum)
  | object (entries : List (String × Datum))

/-- What is computed from the columns of a record. -/
def Computed.apply (column : String → Value) : Computed → Value
  | .annotated main note =>
    if (column note).isTruthy then
      .text ((column main).display ++ " (" ++ (column note).display ++ ")")
    else column main
  | .isSet name => .bool (column name != .null)

namespace Node

def computed? (n : Node) (name : String) : Option Value :=
  (n.model.computed.find? (·.1 == name)).map fun c => c.2.apply n.value

/-- A relation that is not loaded reads as what it holds in the store; that of a draft is empty. -/
def relatedDatum (n : Node) (r : Relation) : Datum :=
  match (n.related? r.name).or (n.within? r.name) with
  | some (.many refs) => .list (refs.map .record)
  | some (.one (some ref)) => .record ref
  | some (.one none) => .value .null
  | none => if r.link.isMany then .list [] else .value .null

def attr? (n : Node) (name : String) : Except MissingAttribute Datum :=
  if n.model.hasColumn name then .ok (.value (n.value name))
  else match n.model.relation? name with
    | some r => .ok (n.relatedDatum r)
    | none =>
      match n.computed? name with
      | some v => .ok (.value v)
      | none => .error ⟨n.model.name, name⟩

def isTrashed (n : Node) : Bool := n.value deletedAt.name != .null

/-- A short text that names a record that can be trashed. -/
def label (n : Node) : String :=
  "<" ++ n.model.name ++ "(id=" ++ (n.value idColumn.name).display ++ ", " ++
    (if n.isTrashed then "deleted" else "active") ++ ")>"

end Node

end Records
