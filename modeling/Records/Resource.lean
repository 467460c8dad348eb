import Records.Record.View
import Records.Session

/-!
A model served as a resource: looking up its records by id and by the values of columns. Trashed
records are found only when they are asked for.
-/
namespace Records

open Records.Filter (Predicate Field)

structure Resource where
  schema : Schema
  model : Model
  /-- Conditions that every listing keeps. -/
  scope : List Predicate := []

/-- The condition that a column has exactly a value. -/
def exactly (m : Model) (c : Column) (v : Value) : Predicate :=
  if v = .null then .isNull ⟨m.table, c⟩ else .compare ⟨m.table, c⟩ .eq v

/-- Names in the order of their characters. -/
def sortedNames (names : List String) : List String := names.mergeSort (· ≤ ·)

def Value.text? : Value → Option String
  | .text s => some s
  | _ => none

/-- What a value yields that has to be walked. -/
def Value.toItems (v : Value) : Except Failure (List Value) :=
  match v.walk? with
  | some vs => .ok vs
  | none => .error (.notIterable v)

/-- The entries of a value that has to have some. -/
def Value.toEntries (v : Value) : Except Failure (List (String × Value)) :=
  match v with
  | .object es => .ok es
  | v => .error (.noEntries v)

/-- The paths in a value; nothing stands for none. -/
def Value.toPaths (v : Value) : Except Failure (List String) := do
  if !v.isTruthy then return []
  (← v.toItems).mapM fun item =>
    match item.text? with
    | some path => .ok path
    | none => .error (.notPath item)

/-- The texts in a value; nothing stands for none. -/
def Value.toNames (v : Value) : Except Failure (List String) := do
  if !v.isTruthy then return []
  return (← v.toItems).filterMap Value.text?

namespace Resource

def notFound {α : Type} (r : Resource) (id : Value) : Action α :=
  .raise (Problem.notFound r.model.name id)

def invalid {α : Type} (detail : String) (fields : List String) : Action α :=
  .raise (Problem.invalid detail fields)

/-- The relation chains of some paths; a path that does not resolve is left out. -/
def eager (r : Resource) (paths : Value) : Action (List (List Handle)) := do
  let paths ← .ofExcept paths.toPaths
  .ofReported Failure.compile (r.schema.eagerChains r.model paths)

/-- The columns left out when only some are loaded. -/
def deferred (r : Resource) (columns : Value) : Action (List String) := do
  return r.model.deferredColumns (← .ofExcept columns.toNames)

/-- The records of a query, with relations loaded on them. -/
def fetch (r : Resource) (q : Query) (chains : List (List Handle)) (deferred : List String) :
    Action (List Ref) := do
  let rows ← .query q
  let refs ← .hold r.schema r.model deferred rows
  .load r.schema chains refs
  return refs

/-- The record with an id. -/
def findById (r : Resource) (id : Value) (chains : List (List Handle)) (withTrashed : Bool) :
    Action (Option Ref) := do
  let q := (Query.base r.model withTrashed).when [exactly r.model idColumn id]
  return (← r.fetch q chains []).head?

/-- The keys of criteria, in the order they are walked. -/
def criteriaKeys (criteria : Value) : Except Failure (List String) := do
  return (← criteria.toItems).filterMap Value.text?

/-- The conditions that columns have exactly the given values. -/
def conditions (r : Resource) (criteria : Value) : Action (List Predicate) := do
  let keys ← .ofExcept (criteriaKeys criteria)
  let unknown := sortedNames (keys.filter fun k => !r.model.hasColumn k).eraseDups
  if !unknown.isEmpty then
    invalid ("Unknown " ++ r.model.name ++ " lookup columns: " ++ ", ".intercalate unknown) unknown
  else do
    let es ← .ofExcept criteria.toEntries
    return es.filterMap fun (key, v) => (r.model.column? key).map fun c => exactly r.model c v

/-- The first record with exactly the given values. -/
def findOneBy (r : Resource) (criteria : Value) (chains : List (List Handle)) (withTrashed : Bool) :
    Action (Option Ref) := do
  let q := (Query.base r.model withTrashed).when (← r.conditions criteria)
  return (← r.fetch { q with window := some (1, 0) } chains []).head?

/-- Every record with exactly the given values. -/
def findAllBy (r : Resource) (criteria : Value) (chains : List (List Handle))
    (deferred : List String) (withTrashed : Bool) : Action (List Ref) := do
  let q := (Query.base r.model withTrashed).when (← r.conditions criteria)
  r.fetch q chains deferred

/-- Every record that is not trashed. -/
def findAll (r : Resource) (columns : Value) : Action (List Ref) := do
  r.fetch (Query.base r.model false) [] (← r.deferred columns)

/-- A view of the record with an id, some relations loaded, with a visibility of its own. -/
def view (r : Resource) (id relations appends hidden : Value) (withTrashed : Bool) :
    Action RecordView := do
  match ← r.findById id (← r.eager relations) withTrashed with
  | none => r.notFound id
  | some ref =>
    let hidden ← .ofExcept hidden.toItems
    let appends ← match appends with
      | .null => pure none
      | v => do pure (some ((← .ofExcept v.toItems).filterMap Value.text?))
    return ⟨ref, hidden.filterMap Value.text?, appends⟩

def findBy (r : Resource) (criteria relations : Value) (withTrashed : Bool) :
    Action (Option Ref) := do
  r.findOneBy criteria (← r.eager relations) withTrashed

def getList (r : Resource) (criteria relations columns : Value) (withTrashed : Bool) :
    Action (List Ref) := do
  let chains ← r.eager relations
  r.findAllBy criteria chains (← r.deferred columns) withTrashed

end Resource

end Records
