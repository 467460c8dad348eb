import Records.Value

/-!
What the tables of a store hold: models with typed columns, relations between them, and the
visibility of their attributes.
-/
namespace Records

/-- What the values of a column are. An untyped column takes any value and keeps it as text. -/
inductive Kind
  | text
  | int
  | float
  | bool
  | date
  | moment
  | untyped
deriving DecidableEq

/-- What a column is given when nothing is written to it. -/
inductive Default
  | value (v : Value)
  | now
deriving DecidableEq

structure Column where
  name : String
  kind : Kind
  required : Bool := false
  unique : Bool := false
  default : Option Default := none
  /-- Set to the current moment by every update that leaves it alone. -/
  refreshed : Bool := false
  /-- The table whose ids the column refers to. -/
  references : Option String := none
deriving DecidableEq

/-- How a record reaches its related records. An owned record does not outlive its owner. -/
inductive Link
  /-- Those whose foreign key is the record's id, ordered by a column. -/
  | many (foreignKey orderedBy : String) (owned : Bool)
  /-- The one whose foreign key is the record's id. -/
  | one (foreignKey : String) (owned : Bool)
  /-- The one whose id is the record's foreign key. -/
  | parent (foreignKey : String)
deriving DecidableEq

structure Relation where
  name : String
  target : String
  link : Link
deriving DecidableEq

/-- An attribute computed from the columns of a record. -/
inductive Computed
  /-- A column, followed by another one in parentheses when that holds something. -/
  | annotated (main note : String)
  /-- Whether a column holds anything. -/
  | isSet (column : String)
deriving DecidableEq

structure Model where
  name : String
  table : String
  columns : List Column
  relations : List Relation := []
  softDeletes : Bool := false
  computed : List (String × Computed) := []
  hidden : List String := []
  appends : List String := []
deriving DecidableEq

/-- Models with names and tables of their own, each with names of their own for its relations. -/
structure Schema where
  models : List Model
  distinctNames : (models.map (·.name)).Nodup
  distinctTables : (models.map (·.table)).Nodup
  distinctRelations : ∀ m ∈ models, (m.relations.map (·.name)).Nodup
deriving DecidableEq

def Link.foreignKey : Link → String
  | .many fk _ _ => fk
  | .one fk _ => fk
  | .parent fk => fk

def Link.isMany : Link → Bool
  | .many .. => true
  | _ => false

def Link.isOwned : Link → Bool
  | .many _ _ owned => owned
  | .one _ owned => owned
  | .parent _ => false

/-- The column every table has as its key. -/
def idColumn : Column := ⟨"id", .int, true, true, none, false, none⟩

/-- The column that marks a trashed row. -/
def deletedAt : Column := ⟨"deleted_at", .moment, false, false, none, false, none⟩

def createdAt : Column := ⟨"created_at", .moment, true, false, some .now, false, none⟩

def updatedAt : Column := ⟨"updated_at", .moment, false, false, none, true, none⟩

namespace Model

/-- The columns but the id. -/
def ownColumns (m : Model) : List Column := m.columns.filter (·.name != idColumn.name)

def column? (m : Model) (name : String) : Option Column := m.columns.find? (·.name == name)

def hasColumn (m : Model) (name : String) : Bool := (m.column? name).isSome

def columnNames (m : Model) : List String := m.columns.map (·.name)

def relation? (m : Model) (name : String) : Option Relation := m.relations.find? (·.name == name)

/-- The entries that name a column. -/
def columnValues (m : Model) (entries : List (String × Value)) : List (String × Value) :=
  entries.filter fun e => m.hasColumn e.1

end Model

/-- Where a key tells items apart, an item is the one found under its key. -/
theorem find?_of_nodup {α β : Type} [DecidableEq β] {key : α → β} {xs : List α}
    (hd : (xs.map key).Nodup) {x : α} (hx : x ∈ xs) : xs.find? (key · == key x) = some x := by
  induction xs with
  | nil => cases hx
  | cons y ys ih =>
    rw [List.map_cons, List.nodup_cons] at hd
    rcases List.mem_cons.1 hx with rfl | hx
    · simp
    · have hy : key y ≠ key x := fun h => hd.1 (h ▸ List.mem_map_of_mem hx)
      rw [List.find?_cons_of_neg (by simpa using hy), ih hd.2 hx]

namespace Schema

def model? (s : Schema) (name : String) : Option Model := s.models.find? (·.name == name)

def ofTable? (s : Schema) (table : String) : Option Model := s.models.find? (·.table == table)

theorem mem_of_model? {s : Schema} {name : String} {m : Model} (h : s.model? name = some m) :
    m ∈ s.models := List.mem_of_find?_eq_some h

theorem name_of_model? {s : Schema} {name : String} {m : Model} (h : s.model? name = some m) :
    m.name = name := by simpa using List.find?_some h

theorem model?_of_mem {s : Schema} {m : Model} (h : m ∈ s.models) : s.model? m.name = some m :=
  find?_of_nodup s.distinctNames h

theorem eq_of_name {s : Schema} {m m' : Model} (hm : m ∈ s.models) (hm' : m' ∈ s.models)
    (h : m.name = m'.name) : m = m' :=
  Option.some.inj ((model?_of_mem hm).symm.trans (h ▸ model?_of_mem hm'))

theorem eq_of_table {s : Schema} {m m' : Model} (hm : m ∈ s.models) (hm' : m' ∈ s.models)
    (h : m.table = m'.table) : m = m' :=
  Option.some.inj
    ((find?_of_nodup s.distinctTables hm).symm.trans (h ▸ find?_of_nodup s.distinctTables hm'))

theorem relation?_of_mem {s : Schema} {m : Model} (hm : m ∈ s.models) {r : Relation}
    (hr : r ∈ m.relations) : m.relation? r.name = some r :=
  find?_of_nodup (s.distinctRelations m hm) hr

theorem ofTable?_of_mem {s : Schema} {m : Model} (h : m ∈ s.models) :
    s.ofTable? m.table = some m :=
  find?_of_nodup s.distinctTables h

end Schema

end Records
