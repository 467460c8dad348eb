import Records.Store.Table

/-!
Writing rows under the constraints of their tables. A row needs an integer for its id and something
in each required column, shares no unique value with another row, and refers only to rows that
exist; an id that is referred to cannot go.
-/
namespace Records

inductive ConstraintError
  | mismatch
  | notNull (table column : String)
  | unique (table column : String)
  | foreignKey
deriving DecidableEq

def ConstraintError.message : ConstraintError → String
  | .mismatch => "datatype mismatch"
  | .notNull table column => "NOT NULL constraint failed: " ++ table ++ "." ++ column
  | .unique table column => "UNIQUE constraint failed: " ++ table ++ "." ++ column
  | .foreignKey => "FOREIGN KEY constraint failed"

/-- The id that a cell stands for. -/
def Cell.toId (c : Cell) : Except ConstraintError Int :=
  match c.kept .integer with
  | .integer n => .ok n
  | _ => .error .mismatch

namespace Row

/-- A required column that holds nothing. -/
def lacking? (m : Model) (r : Row) : Option Column :=
  m.columns.find? fun c => c.required && r.cell c.name == .null

/-- A column in which the row has the unique value of another one. -/
def clash? (m : Model) (others : List Row) (r : Row) : Option Column :=
  (m.columns.filter (·.unique)).find? fun c =>
    others.any fun o => Cell.equals (o.cell c.name) (r.cell c.name)

/-- Whether a row may stand beside others. -/
def check (m : Model) (others : List Row) (r : Row) : Except ConstraintError Unit :=
  match r.lacking? m, r.clash? m others with
  | some c, _ => .error (.notNull m.table c.name)
  | none, some c => .error (.unique m.table c.name)
  | none, none => .ok ()

/-- The row with the cells of some columns replaced, under an id. -/
def withCells (r : Row) (id : Int) (cells : List (String × Cell)) : Row :=
  cells.foldl (fun r (name, c) => r.set name c) ⟨id, r.cells⟩

end Row

namespace Store

/-- What a cell of a column refers to exists. -/
def resolves (st : Store) (c : Column) (cell : Cell) : Bool :=
  match c.references with
  | some table =>
    cell == .null || (st.table table).rows.any fun r => Cell.equals cell (.integer r.id)
  | none => true

/-- Every reference of a row that it did not have before leads to a row. -/
def referencesExist (st : Store) (m : Model) (old : Option Row) (r : Row) : Bool :=
  m.columns.all fun c =>
    old.map (·.cell c.name) == some (r.cell c.name) || st.resolves c (r.cell c.name)

/-- No row refers to an id of a table. -/
def isUnreferenced (s : Schema) (st : Store) (table : String) (id : Int) : Bool :=
  s.models.all fun m => (m.columns.filter (·.references == some table)).all fun c =>
    (st.rows m).all fun r => !Cell.equals (r.cell c.name) (.integer id)

/-- Adds a row; a null stands for the next id. -/
def addRow (st : Store) (m : Model) (id : Cell) (cells : List (String × Cell)) :
    Except ConstraintError (Store × Int) := do
  let t := st.table m.table
  let id ← if id = .null then pure t.nextId else id.toId
  let row : Row := ⟨id, cells⟩
  row.check m t.rows
  let st := st.setTable m.table (t.insert row)
  if st.referencesExist m none row then return (st, id) else throw .foreignKey

/-- Replaces cells of one row, its id perhaps among them. -/
def changeRow (m : Model) (cells : List (String × Cell)) (t : Table) (old : Row) :
    Except ConstraintError (Table × Row) := do
  let id ← match cells.find? (·.1 == idColumn.name) with
    | some (_, c) => c.toId
    | none => pure old.id
  let row := old.withCells id cells
  let others := t.erase old.id
  row.check m others.rows
  return (others.insert row, row)

/-- Replaces cells of several rows, one after another; pairs of former and new rows. -/
def changeRows (m : Model) (cells : List (String × Cell)) :
    Table → List Row → Except ConstraintError (Table × List (Row × Row))
  | t, [] => .ok (t, [])
  | t, old :: rows => do
    let (t, row) ← changeRow m cells t old
    let (t, pairs) ← changeRows m cells t rows
    return (t, (old, row) :: pairs)

/-- The store with cells of some rows replaced at once. -/
def change (s : Schema) (st : Store) (m : Model) (rows : List Row)
    (cells : List (String × Cell)) : Except ConstraintError Store := do
  let (t, pairs) ← changeRows m cells (st.table m.table) rows
  let st := st.setTable m.table t
  let intact := pairs.all fun (old, row) =>
    st.referencesExist m (some old) row &&
      ((t.find? old.id).isSome || st.isUnreferenced s m.table old.id)
  if intact then return st else throw .foreignKey

/-- The store without a row. -/
def remove (s : Schema) (st : Store) (m : Model) (id : Int) : Except ConstraintError Store :=
  let st := st.setTable m.table ((st.table m.table).erase id)
  if st.isUnreferenced s m.table id then .ok st else .error .foreignKey

end Store

end Records
