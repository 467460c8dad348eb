import Records.Resource.Save

/-!
Removing, restoring, creating and changing records without nested ones. A record that can be trashed
is only marked when it is removed. Each change is committed by itself, and rolled back when that
fails.
-/
namespace Records.Resource

/-- Commits the values of some columns of a record. -/
def commitValues (r : Resource) (ref : Ref) (es : List (String × Value)) : Action Ref := do
  fill r.model ref es
  r.reload (← .commit r.schema) ref

/-- Removes a record: it is trashed where that is possible, and else deleted with all it owns. -/
def delete (r : Resource) (ref : Ref) : Action Unit := do
  if r.model.softDeletes then
    let se ← .current
    let _ ← r.commitValues ref [(deletedAt.name, .moment se.now)]
  else
    .stage (·.remove ref)
    let _ ← .commit r.schema

/-- Takes the mark of a trashed record away. -/
def unmark (r : Resource) : Option Ref → Action Unit
  | some ref => do
    let _ ← r.commitValues ref [(deletedAt.name, .null)]
  | none => .fail .nothingToRestore

def destroy (r : Resource) (id : Value) : Action Unit := do
  match ← r.findById id [] false with
  | none => r.notFound id
  | some ref =>
    r.delete ref
    r.tell "Record deleted" [("record_id", id), ("soft", .bool r.model.softDeletes)]

def restore (r : Resource) (id : Value) : Action Unit := do
  match ← r.findById id [] true, r.model.softDeletes with
  | some ref, true =>
    r.unmark ref
    r.tell "Record restored" [("record_id", id)]
  | _, _ => r.notFound id

/-- The entries of two mappings, the second over the first; nothing stands for an empty second. -/
def mergedEntries (attributes values : Value) : Except Failure (List (String × Value)) := do
  let es ← attributes.toEntries
  if !values.isTruthy then return Value.merge [] es
  match values with
  | .object extra => return Value.merge es extra
  | v => .error (.notMapping v)

/-- Commits a new record. -/
def create (r : Resource) (es : List (String × Value)) : Action Ref := do
  let ref ← .stageDraft r.model (r.model.columnValues es)
  r.reload (← .commit r.schema) ref

/-- The first record with exactly the given attributes, or a new one that has the values too. The
flag tells whether it is new. -/
def firstOrCreate (r : Resource) (attributes values : Value) : Action (Ref × Bool) := do
  match ← r.findOneBy attributes [] false with
  | some ref => return (ref, false)
  | none => return (← r.create (← .ofExcept (mergedEntries attributes values)), true)

/-- Gives the values to the first record with exactly the given attributes, or creates one. -/
def updateOrCreate (r : Resource) (attributes values : Value) : Action (Ref × Bool) := do
  match ← r.findOneBy attributes [] false with
  | some ref =>
    let es ← .ofExcept (if values.isTruthy then values.toEntries else .ok [])
    return (← r.commitValues ref es, false)
  | none => return (← r.create (← .ofExcept (mergedEntries attributes values)), true)

/-- The store with the same values written to all rows that a query matches, and how many match. -/
def bulkWrite (s : Schema) (st : Store) (q : Query) (as : Assigned) :
    Except WriteError (Store × Nat) := do
  let cells ← (bindAll (as.parameters ++ q.parameters)).mapError .store
  let rows := q.matching st
  return (← (st.change s q.model rows (as.kept cells)).mapError .constraint, rows.length)

/-- Writes the same values to every record that is not trashed and has one of the ids. -/
def changeAll (r : Resource) (ids : List Value) (es : List (String × Value)) : Action Nat := do
  let chosen ← .ofReported .compile (Filter.membershipPredicate ⟨r.model.table, idColumn⟩ ids)
  let q : Query := { model := r.model, conditions := chosen ++ notTrashed r.model }
  let given := r.model.columns.filterMap fun c => (Value.lookup? c.name es).map fun v => (c, v)
  let se ← .current
  if se.inactive then .fail .inactive
  else do
    let (st, count) ← .ofExcept <|
      (bulkWrite r.schema se.store q (r.model.updateValues se.now given)).mapError .write
    let _ ← .commitOn r.schema st
    return count

/-- Writes the same column values to the records with some ids, and counts them. -/
def multiUpdate (r : Resource) (ids attributes : Value) : Action Nat := do
  let ids ← .ofExcept ids.toItems
  let es ← .ofExcept attributes.toEntries
  let values := r.model.columnValues es
  if values.isEmpty then
    invalid ("No updatable " ++ r.model.name ++ " columns given") (sortedNames (es.map (·.1)))
  else if ids.isEmpty then return 0
  else do
    let count ← r.changeAll ids values
    r.tell "Records bulk updated" [("requested", .int ids.length), ("updated", .int count)]
    return count

end Records.Resource
