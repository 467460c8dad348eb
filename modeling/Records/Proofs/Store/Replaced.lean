import Mathlib.Data.List.Nodup
import Records.Proofs.Store.Identity

/-!
One row in place of another. Where the tables keep their constraints, cells of a row may be replaced
freely as long as no required one becomes empty and no unique or referring one is given something
new; the constraints are then kept.
-/
namespace Records

theorem insertRow_of_lt {row : Row} {rs : List Row} (h : ∀ r ∈ rs, row.id < r.id) :
    Table.insertRow row rs = row :: rs := by
  cases rs with
  | nil => rfl
  | cons r rs => exact if_pos (h r (List.mem_cons_self ..))

namespace Table
variable {t : Table} {row other : Row}

theorem ext_rows {t t' : Table} (h : t.rows = t'.rows) : t = t' := by
  cases t
  cases t'
  cases h
  rfl

theorem mem_insert {x : Row} :
    x ∈ (t.insert row).rows ↔ x = row ∨ x ∈ t.rows ∧ x.id ≠ row.id := by
  refine ⟨fun hx => ?_, ?_⟩
  · by_cases hid : x.id = row.id
    · have hdistinct := List.inj_on_of_nodup_map (t.insert row).nodup_ids hx
        (mem_insert_self t row) hid
      exact .inl hdistinct
    · refine (mem_insertRow hx).imp_right fun hmem => ⟨hmem, hid⟩
  · rintro (rfl | ⟨hx, hne⟩)
    · exact mem_insert_self t x
    · exact mem_insert_of_mem hx hne

/-- A row goes in place of the one with its id, whether that is taken out before or not. -/
theorem insert_erase (t : Table) (row : Row) : (t.erase row.id).insert row = t.insert row := by
  have hrows (rs : List Row) (hrs : rs.Pairwise fun a b => a.id < b.id) :
      insertRow row (rs.filter (·.id != row.id)) = insertRow row rs := by
    induction rs with
    | nil => rfl
    | cons r rs ih =>
      obtain ⟨hr, hrs⟩ := List.pairwise_cons.1 hrs
      -- Behind an id that is not smaller, all ids are greater.
      have hbehind (hle : row.id ≤ r.id) : rs.filter (·.id != row.id) = rs :=
        List.filter_eq_self.2 fun x hx => bne_iff_ne.2 (by have := hr x hx; omega)
      by_cases hid : r.id = row.id
      · rw [List.filter_cons_of_neg (by simp [hid]), hbehind (by omega)]
        rw [insertRow_of_lt fun x hx => by have := hr x hx; omega]
        unfold insertRow
        rw [if_neg (by omega), if_pos hid]
      · rw [List.filter_cons_of_pos (by simpa using hid)]
        unfold insertRow
        split
        · rw [hbehind (by omega)]
        · rw [ih hrs]
  exact ext_rows (hrows t.rows t.ascending)

theorem insert_of_mem (hrow : row ∈ t.rows) : t.insert row = t := by
  have hrows (rs : List Row) (hrs : rs.Pairwise fun a b => a.id < b.id) (hrow : row ∈ rs) :
      insertRow row rs = rs := by
    induction rs with
    | nil => cases hrow
    | cons r rs ih =>
      obtain ⟨hr, hrs⟩ := List.pairwise_cons.1 hrs
      unfold insertRow
      rcases List.mem_cons.1 hrow with rfl | hrow
      · rw [if_neg (by omega), if_pos rfl]
      · have := hr row hrow
        rw [if_neg (by omega), if_neg (by omega), ih hrs hrow]
  exact ext_rows (hrows t.rows t.ascending hrow)

theorem erase_insert (t : Table) (row : Row) : (t.insert row).erase row.id = t.erase row.id := by
  have hrows (rs : List Row) :
      (insertRow row rs).filter (·.id != row.id) = rs.filter (·.id != row.id) := by
    induction rs with
    | nil => simp [insertRow]
    | cons r rs ih =>
      unfold insertRow
      split
      · simp
      · split
        · rename_i hid
          simp [hid]
        · rw [List.filter_cons, List.filter_cons, ih]
  exact ext_rows (hrows t.rows)

theorem erase_of_absent {id : Int} (h : ∀ r ∈ t.rows, r.id ≠ id) : t.erase id = t :=
  ext_rows (List.filter_eq_self.2 fun r hr => bne_iff_ne.2 (h r hr))

/-- Of two rows with one id the later one counts. -/
theorem insert_insert (hid : other.id = row.id) : (t.insert row).insert other = t.insert other := by
  rw [← insert_erase (t.insert row), hid, erase_insert, ← hid, insert_erase]

end Table

namespace Store
variable {st : Store} {m m' : Model} {row other x : Row}

theorem setTable_table (h : st.rows m ≠ []) : st.setTable m.table (st.table m.table) = st := by
  have htables (ts : List (String × Table)) {t : Table}
      (ht : (ts.find? (·.1 == m.table)).map (·.2) = some t) : putTable m.table t ts = ts := by
    induction ts with
    | nil => cases ht
    | cons e ts ih =>
      obtain ⟨key, old⟩ := e
      unfold putTable
      by_cases hkey : key = m.table
      · simp_all
      · rw [if_neg hkey, ih]
        simpa [hkey] using ht
  unfold setTable
  unfold rows at h
  cases hfound : (st.tables.find? (·.1 == m.table)).map (·.2) with
  | none =>
    refine (h ?_).elim
    unfold table
    rw [hfound]
    rfl
  | some t =>
    have htable : st.table m.table = t := by
      unfold table
      rw [hfound]
      rfl
    rw [htable, htables st.tables hfound]

theorem setTable_setTable (st : Store) (name : String) (t t' : Table) :
    (st.setTable name t).setTable name t' = st.setTable name t' := by
  unfold setTable
  refine congrArg Store.mk ?_
  dsimp only
  induction st.tables with
  | nil => simp [putTable]
  | cons e ts ih =>
    obtain ⟨key, old⟩ := e
    by_cases hkey : key = name
    · simp [putTable, hkey]
    · simp [putTable, hkey, ih]

/-- The store with a row of a model in place of the one that has its id. -/
def withRow (st : Store) (m : Model) (row : Row) : Store :=
  st.setTable m.table ((st.table m.table).insert row)

theorem table_withRow (st : Store) (m : Model) (row : Row) :
    (st.withRow m row).table m.table = (st.table m.table).insert row :=
  table_setTable_self st m.table _

theorem rows_withRow_of_ne (h : m'.table ≠ m.table) : (st.withRow m row).rows m' = st.rows m' :=
  rows_setTable_of_ne h st _

theorem mem_rows_withRow : x ∈ (st.withRow m row).rows m ↔
    x = row ∨ x ∈ st.rows m ∧ x.id ≠ row.id := by
  unfold rows
  rw [table_withRow]
  exact Table.mem_insert

theorem withRow_of_mem (hrow : row ∈ st.rows m) : st.withRow m row = st := by
  unfold withRow
  rw [Table.insert_of_mem hrow, setTable_table (List.ne_nil_of_mem hrow)]

theorem withRow_withRow (hid : other.id = row.id) :
    (st.withRow m row).withRow m other = st.withRow m other := by
  unfold withRow
  rw [table_setTable_self, setTable_setTable, Table.insert_insert hid]

end Store

/-- A cell that a column takes whatever the rows are: not empty where something is required, and
empty where it has to be unique or to refer to a row. -/
structure Column.Admits (c : Column) (cell : Cell) : Prop where
  filled : c.required = true → cell ≠ .null
  unbound : cell = .null ∨ c.unique = false ∧ c.references = none

/-- A row that differs from another one only in cells that their columns take. -/
structure Model.Eases (m : Model) (row row' : Row) : Prop where
  id_eq : row'.id = row.id
  cells : ∀ c ∈ m.columns, row'.cell c.name = row.cell c.name ∨ c.Admits (row'.cell c.name)

namespace Model.Eases
variable {m : Model} {row row' : Row}

theorem equals_null (cell : Cell) : Cell.equals cell .null = false := by cases cell <;> rfl

theorem lacking?_eq (h : m.Eases row row') (hrow : row.lacking? m = none) :
    row'.lacking? m = none := by
  unfold Row.lacking? at hrow ⊢
  rw [List.find?_eq_none] at hrow ⊢
  intro c hc hlacks
  obtain ⟨hrequired, hnull⟩ := Bool.and_eq_true_iff.1 hlacks
  rcases h.cells c hc with hsame | hadmits
  · rw [hsame] at hlacks
    exact hrow c hc hlacks
  · exact hadmits.filled hrequired (eq_of_beq hnull)

theorem clash?_eq (h : m.Eases row row') {others : List Row} (hrow : row.clash? m others = none) :
    row'.clash? m others = none := by
  unfold Row.clash? at hrow ⊢
  rw [List.find?_eq_none] at hrow ⊢
  intro c hmem hclash
  obtain ⟨hc, hunique⟩ := List.mem_filter.1 hmem
  rcases h.cells c hc with hsame | hadmits
  · rw [hsame] at hclash
    exact hrow c hmem hclash
  · rcases hadmits.unbound with hnull | ⟨hfree, -⟩
    · rw [hnull] at hclash
      simp [equals_null] at hclash
    · rw [hunique] at hfree
      cases hfree

/-- The changed row may stand where the former one stood. -/
theorem check_ok (h : m.Eases row row') {others : List Row} (hrow : row.check m others = .ok ()) :
    row'.check m others = .ok () := by
  unfold Row.check at hrow ⊢
  cases hlacks : row.lacking? m with
  | some c => rw [hlacks] at hrow; cases hrow
  | none =>
    cases hclash : row.clash? m others with
    | some c => rw [hlacks, hclash] at hrow; cases hrow
    | none => rw [h.lacking?_eq hlacks, h.clash?_eq hclash]

theorem referencesExist (h : m.Eases row row') (st : Store) :
    st.referencesExist m (some row) row' = true := by
  unfold Store.referencesExist
  rw [List.all_eq_true]
  intro c hc
  rw [Bool.or_eq_true]
  rcases h.cells c hc with hsame | hadmits
  · refine .inl ?_
    rw [hsame]
    exact beq_self_eq_true _
  · refine .inr ?_
    unfold Store.resolves
    rcases hadmits.unbound with hnull | ⟨-, hfree⟩
    · rw [hnull]
      cases c.references <;> rfl
    · rw [hfree]

end Model.Eases

namespace Store
variable {s : Schema} {st st' : Store} {m : Model} {row : Row} {cells : List (String × Cell)}

/-- Where its id is left alone, a row is replaced if the new one passes its check. -/
theorem changeRow_spares (hcells : SparesId cells) (t : Table) : changeRow m cells t row = do
    Row.check m (t.erase row.id).rows (row.withCells row.id cells)
    return (t.insert (row.withCells row.id cells), row.withCells row.id cells) := by
  have hnone : cells.find? (·.1 == idColumn.name) = none :=
    List.find?_eq_none.2 fun e he => by simpa using hcells e he
  have herased : (t.erase row.id).insert (row.withCells row.id cells) =
      t.insert (row.withCells row.id cells) := by
    have hid := Row.id_withCells row row.id cells
    rw [← Table.insert_erase t, hid]
  rw [← herased]
  unfold changeRow
  rw [hnone]
  rfl

/-- Where cells of a row are replaced, the new row takes its place. -/
theorem change_eq (hcells : SparesId cells) (h : st.change s m [row] cells = .ok st') :
    st' = st.withRow m (row.withCells row.id cells) := by
  unfold change at h
  obtain ⟨⟨t, pairs⟩, hchanged, h⟩ := except_bind_ok.1 h
  obtain ⟨⟨t₁, new⟩, hfirst, hrest⟩ := except_bind_ok.1 hchanged
  cases hrest
  rw [changeRow_spares hcells] at hfirst
  obtain ⟨⟨⟩, -, hfirst⟩ := except_bind_ok.1 hfirst
  cases hfirst
  dsimp only at h
  split at h
  · cases h
    rfl
  · cases h

/-- Cells that a row takes are replaced. -/
theorem change_eases (hcells : SparesId cells)
    (hchecked : row.check m ((st.table m.table).erase row.id).rows = .ok ())
    (h : m.Eases row (row.withCells row.id cells)) :
    st.change s m [row] cells = .ok (st.withRow m (row.withCells row.id cells)) := by
  have hchanged : changeRow m cells (st.table m.table) row =
      .ok ((st.table m.table).insert (row.withCells row.id cells), row.withCells row.id cells) := by
    rw [changeRow_spares hcells, h.check_ok hchecked]
    rfl
  unfold change changeRows
  rw [hchanged]
  generalize row.withCells row.id cells = new at h ⊢
  have hfound : ((st.table m.table).insert new).find? row.id = some new := by
    rw [← h.id_eq]
    exact Table.find?_of_mem (Table.mem_insert_self _ _)
  change (if [(row, new)].all (fun pair => _) then _ else _) = _
  rw [if_pos]
  · rfl
  · dsimp only [List.all_cons, List.all_nil]
    rw [h.referencesExist, hfound]
    rfl

end Store

end Records
