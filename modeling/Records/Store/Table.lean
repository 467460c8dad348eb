import Records.Store.Codec

/-!
Tables and stores. A table is its rows in the order of their ids, each id once; a store is its
tables by name.
-/
namespace Records

structure Row where
  id : Int
  cells : List (String × Cell)
deriving DecidableEq

namespace Row

/-- The cell under a column's name; the id is the key and not among the cells. -/
def cell (r : Row) (name : String) : Cell :=
  if name = idColumn.name then .integer r.id
  else ((r.cells.find? (·.1 == name)).map (·.2)).getD .null

/-- The row with the cell of a column replaced. -/
def set (r : Row) (name : String) (c : Cell) : Row :=
  { r with cells := r.cells.map fun (k, old) => (k, if k = name then c else old) }

def value (r : Row) (c : Column) : Value := (r.cell c.name).decode c.kind

@[simp] theorem id_set (r : Row) (name : String) (c : Cell) : (r.set name c).id = r.id := rfl

theorem cell_set_of_ne {r : Row} {name other : String} (h : other ≠ name) (c : Cell) :
    (r.set name c).cell other = r.cell other := by
  unfold cell set
  split
  · rfl
  · congr 1
    induction r.cells with
    | nil => rfl
    | cons e es ih =>
      obtain ⟨k, old⟩ := e
      by_cases hk : k = other
      · subst hk
        simp [h]
      · simpa [hk] using ih

end Row

structure Table where
  rows : List Row
  ascending : rows.Pairwise fun a b => a.id < b.id
deriving DecidableEq

namespace Table

def empty : Table := ⟨[], .nil⟩

def find? (t : Table) (id : Int) : Option Row := t.rows.find? (·.id == id)

theorem nodup_ids (t : Table) : (t.rows.map (·.id)).Nodup :=
  List.pairwise_map.2 (t.ascending.imp fun h => Int.ne_of_lt h)

theorem find?_of_mem {t : Table} {row : Row} (h : row ∈ t.rows) : t.find? row.id = some row :=
  find?_of_nodup t.nodup_ids h

theorem mem_of_find? {t : Table} {id : Int} {row : Row} (h : t.find? id = some row) :
    row ∈ t.rows ∧ row.id = id :=
  ⟨List.mem_of_find?_eq_some h, by simpa using List.find?_some h⟩

/-- One more than the largest id, or one. -/
def nextId (t : Table) : Int :=
  match t.rows.getLast? with
  | some r => r.id + 1
  | none => 1

def insertRow (row : Row) : List Row → List Row
  | [] => [row]
  | r :: rs => if row.id < r.id then row :: r :: rs
    else if r.id = row.id then row :: rs
    else r :: insertRow row rs

theorem mem_insertRow {row r : Row} {rs : List Row} (h : r ∈ insertRow row rs) :
    r = row ∨ r ∈ rs := by
  induction rs with
  | nil => simpa [insertRow] using h
  | cons s rs ih =>
    simp only [insertRow] at h
    split at h
    · simpa using h
    · split at h <;> simp only [List.mem_cons] at h ⊢ <;> grind

theorem pairwise_insertRow (row : Row) {rs : List Row} (h : rs.Pairwise fun a b => a.id < b.id) :
    (insertRow row rs).Pairwise fun a b => a.id < b.id := by
  induction rs with
  | nil => simp [insertRow]
  | cons s rs ih =>
    have hs := List.pairwise_cons.1 h
    simp only [insertRow]
    split
    · refine List.pairwise_cons.2 ⟨fun r hr => ?_, h⟩
      rcases List.mem_cons.1 hr with rfl | hr
      · assumption
      · exact Int.lt_trans ‹_› (hs.1 r hr)
    · split
      · refine List.pairwise_cons.2 ⟨fun r hr => ?_, hs.2⟩
        have := hs.1 r hr
        omega
      · refine List.pairwise_cons.2 ⟨fun r hr => ?_, ih hs.2⟩
        rcases mem_insertRow hr with rfl | hr
        · omega
        · exact hs.1 r hr

/-- The table with a row added, in place of the one with its id if there is one. -/
def insert (t : Table) (row : Row) : Table :=
  ⟨insertRow row t.rows, pairwise_insertRow row t.ascending⟩

def erase (t : Table) (id : Int) : Table :=
  ⟨t.rows.filter (·.id != id), t.ascending.filter _⟩

/-- The table with the cells of each row changed; ids stay. -/
def mapCells (t : Table) (f : Row → List (String × Cell)) : Table :=
  ⟨t.rows.map fun r => ⟨r.id, f r⟩, by
    rw [List.pairwise_map]
    exact t.ascending⟩

def filter (t : Table) (p : Row → Bool) : Table := ⟨t.rows.filter p, t.ascending.filter _⟩

end Table

structure Store where
  tables : List (String × Table)
deriving DecidableEq

namespace Store

def empty : Store := ⟨[]⟩

def table (s : Store) (name : String) : Table :=
  ((s.tables.find? (·.1 == name)).map (·.2)).getD .empty

def putTable (name : String) (t : Table) : List (String × Table) → List (String × Table)
  | [] => [(name, t)]
  | (k, old) :: ts => if k = name then (name, t) :: ts else (k, old) :: putTable name t ts

/-- The store with a table replaced. -/
def setTable (s : Store) (name : String) (t : Table) : Store := ⟨putTable name t s.tables⟩

def rows (s : Store) (m : Model) : List Row := (s.table m.table).rows

theorem table_setTable_self (s : Store) (name : String) (t : Table) :
    (s.setTable name t).table name = t := by
  unfold setTable table
  induction s.tables with
  | nil => simp [putTable]
  | cons e ts ih =>
    obtain ⟨k, old⟩ := e
    by_cases h : k = name
    · simp [putTable, h]
    · simpa [putTable, h] using ih

theorem table_setTable_of_ne {name other : String} (h : other ≠ name) (s : Store) (t : Table) :
    (s.setTable name t).table other = s.table other := by
  unfold setTable table
  congr 1
  induction s.tables with
  | nil => simp [putTable, Ne.symm h]
  | cons e ts ih =>
    obtain ⟨k, old⟩ := e
    by_cases hk : k = name
    · simp [putTable, hk, Ne.symm h]
    · by_cases ho : k = other
      · subst ho
        simp [putTable, hk]
      · simpa [putTable, hk, ho] using ih

end Store

end Records
