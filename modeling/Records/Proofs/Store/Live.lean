import Records.Proofs.Filter.Meaning
import Records.Proofs.Record.Chain
import Records.Proofs.Store.Order
import Records.Record.Eager

/-!
A store without its trashed rows. What a filter asks, and what a relation loads, is the same there.
-/
namespace Records

open Records.Filter

/-- A row of a model that is not trashed. -/
def Model.isLive (m : Model) (row : Row) : Bool :=
  !m.softDeletes || row.cell deletedAt.name == .null

/-- The store without the trashed rows of the models whose rows can be trashed. -/
def Store.live (s : Schema) (st : Store) : Store :=
  ⟨st.tables.map fun (name, t) =>
    (name, match s.ofTable? name with
      | some m => t.filter m.isLive
      | none => t)⟩

namespace Store
variable {s : Schema} {st : Store}

theorem table_live {m : Model} (hm : m ∈ s.models) :
    (st.live s).table m.table = (st.table m.table).filter m.isLive := by
  unfold live table
  dsimp only
  rw [List.find?_map]
  have hname : (fun e : String × Table => e.1 == m.table) ∘ (fun e : String × Table =>
      (e.1, match s.ofTable? e.1 with
        | some m => e.2.filter m.isLive
        | none => e.2)) = fun e => e.1 == m.table := rfl
  rw [hname]
  cases h : st.tables.find? (·.1 == m.table) with
  | none => rfl
  | some e =>
    have he : e.1 = m.table := by simpa using List.find?_some h
    simp only [Option.map_some, Option.getD_some, he, Schema.ofTable?_of_mem hm]

theorem rows_live {m : Model} (hm : m ∈ s.models) :
    (st.live s).rows m = (st.rows m).filter m.isLive := by
  rw [rows, table_live hm]
  rfl

theorem find?_live {m : Model} (hm : m ∈ s.models) {row : Row} (hrow : row ∈ st.rows m)
    (hlive : m.isLive row) : ((st.live s).table m.table).find? row.id = some row := by
  apply Table.find?_of_mem
  rw [table_live hm]
  exact List.mem_filter.2 ⟨hrow, hlive⟩

theorem relatedRows_live {h : Handle} (hh : h.target ∈ s.models) (r : Row) :
    relatedRows (st.live s) h r = (relatedRows st h r).filter h.target.isLive := by
  unfold relatedRows
  rw [rows_live hh]
  cases h.relation.link <;> simp only [List.filter_filter, Bool.and_comm]

theorem memberRows_live {h : Handle} (hh : h.target ∈ s.models) (r : Row) :
    memberRows (st.live s) h r = (memberRows st h r).filter h.target.isLive := by
  unfold memberRows
  rw [relatedRows_live hh]
  cases h.relation.link with
  | many fk orderedBy owned => exact (Query.filter_sorted _ _ _).symm
  | one fk owned => rfl
  | parent fk => rfl

theorem loadedRows_live {h : Handle} (hh : h.target ∈ s.models) (r : Row) :
    loadedRows (st.live s) h r = loadedRows st h r := by
  unfold loadedRows
  rw [memberRows_live hh, List.filter_filter]
  -- Loading leaves the trashed rows out itself.
  exact List.filter_congr fun t _ => Bool.and_self _

theorem mem_memberRows {h : Handle} {r t : Row} (ht : t ∈ memberRows st h r) :
    t ∈ st.rows h.target := by
  have hrelated : t ∈ relatedRows st h r := by
    unfold memberRows at ht
    cases hlink : h.relation.link with
    | many fk orderedBy owned => exact Query.mem_sorted.1 (by simpa only [hlink] using ht)
    | one fk owned => simpa only [hlink] using ht
    | parent fk => simpa only [hlink] using ht
  unfold relatedRows at hrelated
  cases hlink : h.relation.link <;> rw [hlink] at hrelated <;> exact (List.mem_filter.1 hrelated).1

theorem mem_loadedRows {h : Handle} {r t : Row} (ht : t ∈ loadedRows st h r) :
    t ∈ st.rows h.target ∧ h.target.isLive t := by
  obtain ⟨hm, hlive⟩ := List.mem_filter.1 ht
  exact ⟨mem_memberRows hm, hlive⟩

end Store

end Records
