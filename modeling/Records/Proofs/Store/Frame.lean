import Records.Proofs.Traversal
import Records.Store.Constraint

/-!
What adding, changing and removing rows leaves alone: every other row of every table. Rows keep
their ids, and no new row takes the id of another.
-/
namespace Records

/-- Every table is keyed by its id, which is no foreign key. -/
structure Schema.Keyed (s : Schema) : Prop where
  id_mem : ∀ m ∈ s.models, idColumn ∈ m.columns
  id_only : ∀ m ∈ s.models, ∀ c ∈ m.columns, c.name = idColumn.name → c = idColumn
  links : ∀ m ∈ s.models, ∀ r ∈ m.relations, r.link.foreignKey ≠ idColumn.name

/-- Entries for columns other than the id. -/
def SparesId {α : Type} (es : List (String × α)) : Prop := ∀ e ∈ es, e.1 ≠ idColumn.name

theorem Row.cell_id (r : Row) : r.cell idColumn.name = .integer r.id := if_pos rfl

theorem Row.id_withCells (r : Row) (id : Int) (cells : List (String × Cell)) :
    (r.withCells id cells).id = id := by
  have hset (cells : List (String × Cell)) (start : Row) :
      (cells.foldl (fun r e => r.set e.1 e.2) start).id = start.id := by
    induction cells generalizing start with
    | nil => rfl
    | cons e cells ih => exact ih (start.set e.1 e.2)
  exact hset cells ⟨id, r.cells⟩

theorem Cell.equals_integer (n : Int) : equals (.integer n) (.integer n) = true := by
  have horder : order (.integer n) (.integer n) = .eq := Int.compare_eq_eq.2 rfl
  change (some (order (.integer n) (.integer n)) == some .eq) = true
  rw [horder]
  rfl

/-- A row may only stand beside rows with other ids. -/
theorem Row.ne_of_check {m : Model} (hid : idColumn ∈ m.columns) {others : List Row} {row : Row}
    (h : row.check m others = .ok ()) {r : Row} (hr : r ∈ others) : r.id ≠ row.id := by
  intro hsame
  have hclash : (row.clash? m others).isSome := by
    unfold Row.clash?
    rw [List.find?_isSome]
    refine ⟨idColumn, List.mem_filter.2 ⟨hid, rfl⟩, List.any_eq_true.2 ⟨r, hr, ?_⟩⟩
    rw [Row.cell_id, Row.cell_id, hsame]
    exact Cell.equals_integer row.id
  unfold Row.check at h
  obtain ⟨c, hc⟩ := Option.isSome_iff_exists.1 hclash
  rw [hc] at h
  cases hl : row.lacking? m <;> rw [hl] at h <;> cases h

namespace Table

theorem mem_erase {t : Table} {id : Int} {r : Row} :
    r ∈ (t.erase id).rows ↔ r ∈ t.rows ∧ r.id ≠ id := by
  change r ∈ t.rows.filter (·.id != id) ↔ _
  rw [List.mem_filter, bne_iff_ne]

theorem mem_insert_self (t : Table) (row : Row) : row ∈ (t.insert row).rows := by
  have hmem (rs : List Row) : row ∈ insertRow row rs := by
    induction rs with
    | nil => exact List.mem_singleton_self _
    | cons r rs ih =>
      unfold insertRow
      split
      · exact List.mem_cons_self ..
      · split
        · exact List.mem_cons_self ..
        · exact List.mem_cons_of_mem _ ih
  exact hmem t.rows

theorem mem_insert_of_mem {t : Table} {r row : Row} (hr : r ∈ t.rows) (hne : r.id ≠ row.id) :
    r ∈ (t.insert row).rows := by
  have hmem (rs : List Row) (hr : r ∈ rs) : r ∈ insertRow row rs := by
    induction rs with
    | nil => cases hr
    | cons s rs ih =>
      unfold insertRow
      split
      · exact List.mem_cons_of_mem _ hr
      · split
        · rename_i hsame
          rcases List.mem_cons.1 hr with rfl | hr
          · exact absurd hsame hne
          · exact List.mem_cons_of_mem _ hr
        · rcases List.mem_cons.1 hr with rfl | hr
          · exact List.mem_cons_self ..
          · exact List.mem_cons_of_mem _ (ih hr)
  exact hmem t.rows hr

end Table

namespace Store

theorem rows_setTable_of_ne {m other : Model} (h : other.table ≠ m.table) (st : Store) (t : Table) :
    (st.setTable m.table t).rows other = st.rows other :=
  congrArg Table.rows (table_setTable_of_ne h st t)

/-- A row stays in a store with one table replaced, if it stays in that table. -/
theorem mem_rows_setTable {m other : Model} {st : Store} {t : Table} {row : Row}
    (hrow : row ∈ st.rows other)
    (ht : other.table = m.table → row ∈ (st.table m.table).rows → row ∈ t.rows) :
    row ∈ (st.setTable m.table t).rows other := by
  by_cases h : other.table = m.table
  · unfold rows at hrow ⊢
    rw [h] at hrow ⊢
    rw [table_setTable_self]
    exact ht h hrow
  · rwa [rows_setTable_of_ne h]

/-- A row that was added passed its check, under the id it was given. -/
theorem addRow_ok {m : Model} {st st' : Store} {id : Cell} {cells : List (String × Cell)} {n : Int}
    (h : st.addRow m id cells = .ok (st', n)) :
    Row.check m (st.table m.table).rows ⟨n, cells⟩ = .ok () ∧
      st' = st.setTable m.table ((st.table m.table).insert ⟨n, cells⟩) := by
  unfold addRow at h
  dsimp only at h
  -- Whether the id is the next one or the given one, what follows is the same.
  split at h
  all_goals
    obtain ⟨given, -, h⟩ := except_bind_ok.1 h
    obtain ⟨⟨⟩, hcheck, h⟩ := except_bind_ok.1 h
    split at h
    · cases h
      exact ⟨hcheck, rfl⟩
    · cases h

theorem addRow_keeps {m : Model} (hid : idColumn ∈ m.columns) {st st' : Store} {id : Cell}
    {cells : List (String × Cell)} {n : Int} (h : st.addRow m id cells = .ok (st', n))
    {other : Model} {row : Row} (hrow : row ∈ st.rows other) : row ∈ st'.rows other := by
  obtain ⟨hcheck, rfl⟩ := addRow_ok h
  refine mem_rows_setTable hrow fun _ hmem => ?_
  exact Table.mem_insert_of_mem hmem (Row.ne_of_check hid hcheck hmem)

theorem changeRow_keeps {m : Model} {cells : List (String × Cell)}
    (hcells : SparesId cells) {t t' : Table} {old new : Row}
    (h : changeRow m cells t old = .ok (t', new)) {row : Row} (hrow : row ∈ t.rows)
    (hne : row.id ≠ old.id) : row ∈ t'.rows := by
  have hnone : cells.find? (·.1 == idColumn.name) = none := by
    rw [List.find?_eq_none]
    exact fun e he => by simpa using hcells e he
  unfold changeRow at h
  rw [hnone] at h
  obtain ⟨id, hid, h⟩ := except_bind_ok.1 h
  cases hid
  obtain ⟨⟨⟩, -, h⟩ := except_bind_ok.1 h
  cases h
  refine Table.mem_insert_of_mem (Table.mem_erase.2 ⟨hrow, hne⟩) ?_
  rwa [Row.id_withCells]

theorem changeRows_keeps {m : Model} {cells : List (String × Cell)}
    (hcells : SparesId cells) {row : Row} {rows : List Row}
    (hne : ∀ r ∈ rows, row.id ≠ r.id) {t t' : Table} {pairs : List (Row × Row)}
    (h : changeRows m cells t rows = .ok (t', pairs)) (hrow : row ∈ t.rows) : row ∈ t'.rows := by
  induction rows generalizing t pairs with
  | nil =>
    cases h
    exact hrow
  | cons old rows ih =>
    obtain ⟨⟨t₁, new⟩, hfirst, h⟩ := except_bind_ok.1 h
    obtain ⟨⟨t₂, later⟩, hlater, h⟩ := except_bind_ok.1 h
    cases h
    have hkept := changeRow_keeps hcells hfirst hrow (hne old (List.mem_cons_self ..))
    exact ih (fun r hr => hne r (List.mem_cons_of_mem _ hr)) hlater hkept

theorem change_keeps {s : Schema} {m : Model} {cells : List (String × Cell)}
    (hcells : SparesId cells) {st st' : Store} {rows : List Row}
    (h : st.change s m rows cells = .ok st') {other : Model} {row : Row}
    (hrow : row ∈ st.rows other) (hne : other.table = m.table → ∀ r ∈ rows, row.id ≠ r.id) :
    row ∈ st'.rows other := by
  unfold change at h
  obtain ⟨⟨t, pairs⟩, hchanged, h⟩ := except_bind_ok.1 h
  dsimp only at h
  split at h
  · cases h
    refine mem_rows_setTable hrow fun htable hmem => ?_
    exact changeRows_keeps hcells (hne htable) hchanged hmem
  · cases h

theorem remove_keeps {s : Schema} {m : Model} {st st' : Store} {id : Int}
    (h : st.remove s m id = .ok st') {other : Model} {row : Row} (hrow : row ∈ st.rows other)
    (hne : other.table = m.table → row.id ≠ id) : row ∈ st'.rows other := by
  unfold remove at h
  dsimp only at h
  split at h
  · cases h
    exact mem_rows_setTable hrow fun htable hmem => Table.mem_erase.2 ⟨hmem, hne htable⟩
  · cases h

end Store

end Records
