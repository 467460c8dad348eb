import Records.Proofs.Record.Reference
import Records.Proofs.Store.Replaced

/-!
Stores that keep the constraints of their tables: each row has a cell for every column, and may stand
beside the other rows. Such a store stays one when cells of a row are replaced by cells that their
columns take.
-/
namespace Records

theorem Cell.null_equals (cell : Cell) : equals .null cell = false := by cases cell <;> rfl

namespace Row
variable {m : Model} {others : List Row} {row : Row}

theorem check_ok_iff :
    row.check m others = .ok () ↔ row.lacking? m = none ∧ row.clash? m others = none := by
  unfold check
  cases row.lacking? m <;> cases row.clash? m others <;> simp

theorem clash?_eq_none_iff : row.clash? m others = none ↔ ∀ c ∈ m.columns, c.unique = true →
    ∀ other ∈ others, Cell.equals (other.cell c.name) (row.cell c.name) = false := by
  unfold clash?
  simp [List.find?_eq_none]

end Row

/-- Each row has a cell for every column, and passes its check. -/
structure Store.Lawful (s : Schema) (st : Store) : Prop where
  complete : st.Complete s
  checked : ∀ m ∈ s.models, ∀ row ∈ st.rows m,
    row.check m ((st.table m.table).erase row.id).rows = .ok ()

namespace Store
variable {s : Schema} {st : Store} {m : Model} {row row' : Row}

/-- The rows beside another one may stand there when that is replaced. -/
theorem check_beside {t : Table} {other : Row} (h : m.Eases row row') (hrow : row ∈ t.rows)
    (hne : other.id ≠ row.id) (hchecked : other.check m (t.erase other.id).rows = .ok ()) :
    other.check m ((t.insert row').erase other.id).rows = .ok () := by
  obtain ⟨hlacks, hclash⟩ := Row.check_ok_iff.1 hchecked
  rw [Row.clash?_eq_none_iff] at hclash
  refine Row.check_ok_iff.2 ⟨hlacks, Row.clash?_eq_none_iff.2 fun c hc hunique x hx => ?_⟩
  obtain ⟨hx, hxne⟩ := Table.mem_erase.1 hx
  rcases Table.mem_insert.1 hx with rfl | ⟨hx, -⟩
  · rcases h.cells c hc with hsame | hadmits
    · rw [hsame]
      exact hclash c hc hunique row (Table.mem_erase.2 ⟨hrow, hne.symm⟩)
    · rcases hadmits.unbound with hnull | ⟨hfree, -⟩
      · rw [hnull]
        exact Cell.null_equals _
      · rw [hunique] at hfree
        cases hfree
  · exact hclash c hc hunique x (Table.mem_erase.2 ⟨hx, hxne⟩)

theorem Lawful.withRow (hst : st.Lawful s) (hm : m ∈ s.models) (hrow : row ∈ st.rows m)
    (h : m.Eases row row') (hkeys : row'.cells.map (·.1) = row.cells.map (·.1)) :
    (st.withRow m row').Lawful s := by
  refine ⟨fun m' hm' x hx c hc hne => ?_, fun m' hm' x hx => ?_⟩
  · by_cases htable : m'.table = m.table
    · obtain rfl := Schema.eq_of_table hm' hm htable
      rcases mem_rows_withRow.1 hx with rfl | ⟨hx, -⟩
      · rw [hkeys]
        exact hst.complete _ hm row hrow c hc hne
      · exact hst.complete _ hm x hx c hc hne
    · rw [rows_withRow_of_ne htable] at hx
      exact hst.complete m' hm' x hx c hc hne
  · by_cases htable : m'.table = m.table
    · obtain rfl := Schema.eq_of_table hm' hm htable
      rw [table_withRow]
      rcases mem_rows_withRow.1 hx with rfl | ⟨hx, hne⟩
      · rw [Table.erase_insert, h.id_eq]
        exact h.check_ok (hst.checked _ hm row hrow)
      · exact check_beside h hrow (h.id_eq ▸ hne) (hst.checked _ hm x hx)
    · rw [rows_withRow_of_ne htable] at hx
      have htables : (st.withRow m row').table m'.table = st.table m'.table :=
        table_setTable_of_ne htable ..
      rw [htables]
      exact hst.checked m' hm' x hx

end Store

end Records
