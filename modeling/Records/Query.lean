import Records.Filter.Predicate

/-!
Queries on one table: conditions, an order, and a window. The parameters are bound first, so a value
that cannot be bound fails the query whatever the rows are.
-/
namespace Records

open Records.Filter (Predicate)

inductive Direction
  | ascending
  | descending
deriving DecidableEq

structure Query where
  model : Model
  conditions : List Predicate := []
  sort : Option (Column × Direction) := none
  /-- How many rows, after how many. -/
  window : Option (Int × Int) := none

def notTrashed (m : Model) : List Predicate :=
  if m.softDeletes then [.isNull ⟨m.table, deletedAt⟩] else []

namespace Query

/-- The rows of a model, the trashed ones only if asked for. -/
def base (m : Model) (withTrashed : Bool) : Query :=
  { model := m, conditions := if withTrashed then [] else notTrashed m }

def when (q : Query) (ps : List Predicate) : Query := { q with conditions := q.conditions ++ ps }

def parameters (q : Query) : List Parameter := Predicate.allParameters q.conditions

/-- Whether one row may come before another; rows that are equal keep their order. -/
def inOrder (c : Column) (d : Direction) (a b : Row) : Bool :=
  let o := Cell.order (a.cell c.name) (b.cell c.name)
  match d with
  | .ascending => o != .gt
  | .descending => o != .lt

def sorted (rows : List Row) : Option (Column × Direction) → List Row
  | none => rows
  | some (c, d) => rows.mergeSort (inOrder c d)

def windowed {α : Type} (rows : List α) : Option (Int × Int) → List α
  | none => rows
  | some (limit, offset) => (rows.drop offset.toNat).take limit.toNat

/-- The rows that satisfy the conditions, in the order of their ids. -/
def matching (q : Query) (s : Store) : List Row :=
  (s.rows q.model).filter fun r => Predicate.allHold s r q.conditions

/-- The rows a query yields once its parameters are bound. -/
def rows (q : Query) (s : Store) : List Row := windowed (sorted (q.matching s) q.sort) q.window

def windowParameters : Option (Int × Int) → List Parameter
  | none => []
  | some (limit, offset) => [⟨.raw, .int limit⟩, ⟨.raw, .int offset⟩]

def run (q : Query) (s : Store) : Except StoreError (List Row) := do
  let _ ← bindAll (q.parameters ++ windowParameters q.window)
  return q.rows s

/-- How many rows there are without the window. -/
def count (q : Query) (s : Store) : Except StoreError Nat := do
  let _ ← bindAll q.parameters
  return (q.matching s).length

theorem run_eq_ok {q : Query} {s : Store} {rows : List Row} : q.run s = .ok rows ↔
    (∃ cells, bindAll (q.parameters ++ windowParameters q.window) = .ok cells) ∧
      rows = q.rows s := by
  unfold run
  cases bindAll (q.parameters ++ windowParameters q.window) <;>
    simp [bind, Except.bind, pure, Except.pure, eq_comm]

theorem run_ok {q : Query} {s : Store} {rows : List Row} (h : q.run s = .ok rows) :
    rows = q.rows s := (run_eq_ok.1 h).2

theorem count_ok {q : Query} {s : Store} {n : Nat} (h : q.count s = .ok n) :
    n = (q.matching s).length := by
  unfold count at h
  cases hb : bindAll q.parameters with
  | error e => simp [hb, bind, Except.bind] at h
  | ok cells =>
    simp only [hb, bind, Except.bind, pure, Except.pure, Except.ok.injEq] at h
    exact h.symm

end Query

end Records
