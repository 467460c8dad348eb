import Records.Resource

/-!
Storing and updating a record together with nested records. Entries that name columns give values;
collections under the name of a relation are the nested records. A nested record with an id is
looked up among those the relation leads to; the others are new. Everything is written at once.
-/
namespace Records

open Records.Filter (Predicate)

/-- The entries of a nested record, if there are any. -/
def Value.nested? : Value → Option (List (String × Value))
  | .object (e :: es) => some (e :: es)
  | _ => none

/-- The nested records that a collection stands for; a value of another kind stands for none. -/
def Value.nestedRecords? : Value → Option (List (List (String × Value)))
  | .object es => some (Value.nested? (.object es)).toList
  | .list vs => some (vs.filterMap Value.nested?)
  | .tuple vs => some (vs.filterMap Value.nested?)
  | _ => none

/-- Nested records, and the relation they belong under. -/
structure Nested where
  handle : Handle
  records : List (List (String × Value))

/-- The column values that a stored record may be given: all but its id. -/
def Model.fillValues (m : Model) (es : List (String × Value)) : List (String × Value) :=
  (m.columnValues es).filter fun e => e.1 != idColumn.name

/-- The id of a stored record as a value. -/
def Ref.idValue : Ref → Value
  | .stored _ id => .int id
  | .draft _ => .null

namespace Resource

/-- The nested records of a payload. A singular relation takes the last one given for it; a key that
is neither a column nor a relation is ignored. -/
def nested (r : Resource) : List (String × Value) → Action (List Nested)
  | [] => pure []
  | (key, v) :: es => do
    match r.model.hasColumn key, v.nestedRecords? with
    | false, some records =>
      match r.schema.resolve? r.model key with
      | some h =>
        let records := if h.relation.link.isMany then records else records.getLast?.toList
        return ⟨h, records⟩ :: (← r.nested es)
      | none =>
        .entry ⟨.debug, .service, "Payload key is not a relation, ignored",
          [("model", .text r.model.name), ("key", .text key)]⟩
        r.nested es
    | _, _ => r.nested es

/-- Stages the values of a payload for a stored record. -/
def fill (m : Model) (ref : Ref) (es : List (String × Value)) : Action Unit :=
  match ref with
  | .stored _ id => .stage (·.edit m id (m.fillValues es))
  | .draft _ => pure ()

/-- Stages a new record under a relation. -/
def attachNew (holder : Ref) (h : Handle) (es : List (String × Value)) : Action Unit := do
  let member ← .stageDraft h.target (h.target.columnValues es)
  .stage (·.attach h holder member)

/-- The value that a column of a record is going to have. -/
def pendingValue (ref : Ref) (column : String) : Action Value := do
  let se ← .current
  let stored := ((se.records.node? ref).map (·.value column)).getD .null
  match ref with
  | .stored name id => return (Value.lookup? column (se.staged.valuesOf name id)).getD stored
  | .draft _ => return stored

/-- The condition that a record is one that a relation of another leads to. -/
def belongs (h : Handle) (holder : Ref) : Action (List Predicate) := do
  match h.relation.link with
  | .parent fk => return [.compare ⟨h.target.table, idColumn⟩ .eq (← pendingValue holder fk)]
  | link =>
    let id ← pendingValue holder idColumn.name
    let column := (h.target.column? link.foreignKey).toList
    return column.map fun c => .compare ⟨h.target.table, c⟩ .eq id

/-- The record with an id among those a relation leads to, trashed or not. -/
def findRelated (r : Resource) (holder : Ref) (h : Handle) (id : Value) : Action (Option Ref) := do
  let q := (Query.base h.target true).when (exactly h.target idColumn id :: (← belongs h holder))
  let rows ← .query q
  return (← .hold r.schema h.target [] rows).head?

/-- Stages a nested record: an existing one that is merged with the payload, or a new one. -/
def attachNested (r : Resource) (holder : Ref) (h : Handle) (es : List (String × Value)) :
    Action Unit := do
  match (Value.lookup? idColumn.name es).getD .null with
  | .null => attachNew holder h es
  | id =>
    match ← r.findRelated holder h id with
    | some member =>
      fill h.target member es
      .stage (·.attach h holder member)
    | none =>
      let holderId ← pendingValue holder idColumn.name
      .rollback
      .raise (Problem.relatedNotFound h.target.name id h.relation.name r.model.name holderId)

/-- A record as it was written. It is read back by its id, and has to be found. -/
def reload (r : Resource) (w : Written) (ref : Ref) : Action Ref := do
  match (w.id? ref).bind fun id => (w.store.table r.model.table).find? id with
  | some row =>
    let _ ← .hold r.schema r.model [] [row]
    return .stored r.model.name row.id
  | none => .fail (.notRefreshed r.model.name)

/-- Tells the log of a record that was changed. -/
def tell (r : Resource) (message : String) (data : List (String × Value)) : Action Unit :=
  .entry ⟨.info, .service, message, ("model", .text r.model.name) :: data⟩

/-- Writes what is staged for a record; nothing when that fails. -/
def saveRecord (r : Resource) (ref : Ref) (message : String) : Action (Option Ref) := do
  match ← .save r.schema r.model with
  | none => return none
  | some w =>
    let ref ← r.reload w ref
    r.tell message [("record_id", ref.idValue)]
    return some ref

/-- Creates a record and its nested records. -/
def store (r : Resource) (payload : Value) : Action (Option Ref) := do
  let es ← .ofExcept payload.toEntries
  let holder ← .stageDraft r.model (r.model.columnValues es)
  (← r.nested es).forM fun n => n.records.forM (attachNew holder n.handle)
  r.saveRecord holder "Record stored"

/-- Merges a payload into a record and its nested records. -/
def update (r : Resource) (id payload : Value) : Action (Option Ref) := do
  match ← r.findById id [] false with
  | none => r.notFound id
  | some holder =>
    let es ← .ofExcept payload.toEntries
    fill r.model holder es
    (← r.nested es).forM fun n => n.records.forM (r.attachNested holder n.handle)
    r.saveRecord holder "Record updated"

/-- Merges column values into a record and writes them; tells whether that went well. -/
def fillAndSave (r : Resource) (ref : Ref) (payload : Value) : Action (Bool × Ref) := do
  fill r.model ref (← .ofExcept payload.toEntries)
  match ← .save r.schema r.model with
  | some w => return (true, ← r.reload w ref)
  | none =>
    let se ← .current
    let rows := (se.store.rows r.model).filter fun row => .stored r.model.name row.id == ref
    let _ ← .hold r.schema r.model r.model.columnNames rows
    return (false, ref)

end Resource

end Records
