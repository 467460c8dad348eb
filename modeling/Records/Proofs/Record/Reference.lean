import Records.Proofs.Record.Chain
import Records.Proofs.Staging.Taken
import Records.Proofs.Store.Comparison

/-!
Foreign keys as columns of integers: what a relation leads to in a store, and what the key comes to
when an id is written to it.
-/
namespace Records

open Records.Filter (Predicate relatedRows)

/-- The model with the foreign key of a relation. -/
def Handle.referrer (h : Handle) : Model :=
  match h.relation.link with
  | .parent _ => h.parent
  | _ => h.target

theorem Handle.referrer_of_parent {h : Handle} {fk : String}
    (hlink : h.relation.link = .parent fk) : h.referrer = h.parent := by
  unfold referrer
  rw [hlink]

theorem Handle.referrer_of_child {h : Handle} (hlink : ∀ fk, h.relation.link ≠ .parent fk) :
    h.referrer = h.target := by
  unfold referrer
  cases hl : h.relation.link with
  | parent fk => exact absurd hl (hlink fk)
  | many fk orderedBy owned => rfl
  | one fk owned => rfl

/-- A keyed schema in which columns have names of their own, foreign keys are columns of integers
that no update sets by itself, and each key of a record leads to one parent. -/
structure Schema.Referential (s : Schema) : Prop extends s.Keyed where
  names : ∀ m ∈ s.models, (m.columns.map (·.name)).Nodup
  keys : ∀ m ∈ s.models, ∀ h ∈ s.handles m, ∃ c ∈ h.referrer.columns,
    c.name = h.relation.link.foreignKey ∧ c.kind = .int ∧ c.refreshed = false
  parents : ∀ m ∈ s.models, ∀ h ∈ s.handles m, ∀ h' ∈ s.handles m, ∀ fk,
    h.relation.link = .parent fk → h'.relation.link = .parent fk → h = h'

/-- The model that the foreign key of a relation leads to. -/
def Handle.referred (h : Handle) : Model :=
  match h.relation.link with
  | .parent _ => h.target
  | _ => h.parent

theorem Handle.referred_of_parent {h : Handle} {fk : String}
    (hlink : h.relation.link = .parent fk) : h.referred = h.target := by
  unfold referred
  rw [hlink]

theorem Handle.referred_of_child {h : Handle} (hlink : ∀ fk, h.relation.link ≠ .parent fk) :
    h.referred = h.parent := by
  unfold referred
  cases hl : h.relation.link with
  | parent fk => exact absurd hl (hlink fk)
  | many fk orderedBy owned => rfl
  | one fk owned => rfl

/-- A referential schema in which a key leads to one table, whose rows are written first, and holds
nothing unless it is given. Relations between the same models differ in their keys, unless one leads
back along the other. A model whose records can be trashed has the column for it, and the names of
relations are no paths. -/
structure Schema.Regular (s : Schema) : Prop extends s.Referential where
  refers : ∀ m ∈ s.models, ∀ h ∈ s.handles m, ∀ c ∈ h.referrer.columns,
    c.name = h.relation.link.foreignKey → c.references = some h.referred.table ∧ c.default = none
  order : ∀ m ∈ s.models, ∀ h ∈ s.handles m, h.referred = h.referrer ∨
    [h.referred, h.referrer].Sublist s.models
  apart : ∀ m ∈ s.models, ∀ h ∈ s.handles m, ∀ h' ∈ s.handles m, h.target = h'.target →
    h.relation.link.foreignKey = h'.relation.link.foreignKey →
    h = h' ∨ h.relation.link.opposite h'.relation.link
  marks : ∀ m ∈ s.models, m.softDeletes = true → deletedAt ∈ m.columns
  undotted : ∀ m ∈ s.models, ∀ r ∈ m.relations, '.' ∉ r.name.toList

theorem Schema.Declares.mem_handles {s : Schema} {h : Handle} (hd : s.Declares h) :
    h ∈ s.handles h.parent := by
  have hrelation := (Schema.handle?_eq_some.1 hd.handle?).1
  exact List.mem_filterMap.2 ⟨h.relation, List.mem_of_find?_eq_some hrelation, hd.handle?⟩

theorem Schema.Declares.referrer_mem {s : Schema} {h : Handle} (hd : s.Declares h) :
    h.referrer ∈ s.models := by
  unfold Handle.referrer
  split
  · exact hd.parent_mem
  · exact hd.target_mem

theorem Schema.Referential.key {s : Schema} (hs : s.Referential) {h : Handle} (hd : s.Declares h) :
    ∃ c ∈ h.referrer.columns, c.name = h.relation.link.foreignKey ∧ c.kind = .int ∧
      c.refreshed = false :=
  hs.keys h.parent hd.parent_mem h hd.mem_handles

theorem Schema.Referential.column? {s : Schema} (hs : s.Referential) {m : Model} (hm : m ∈ s.models)
    {c : Column} (hc : c ∈ m.columns) : m.column? c.name = some c :=
  find?_of_nodup (hs.names m hm) hc

/-- A key is not the mark of a trashed record. -/
theorem Schema.Regular.key_ne_mark {s : Schema} (hs : s.Regular) {h : Handle} (hd : s.Declares h)
    (hsoft : h.referrer.softDeletes = true) : h.relation.link.foreignKey ≠ deletedAt.name := by
  intro hname
  obtain ⟨c, hc, hkey, hkind, -⟩ := hs.key hd
  obtain rfl : c = deletedAt := List.inj_on_of_nodup_map (hs.names _ hd.referrer_mem) hc
    (hs.marks _ hd.referrer_mem hsoft) (hkey.trans hname)
  cases hkind

/-- A relation leads from a record to another one in a store. -/
def Handle.Connects (h : Handle) (st : Store) (n i : Int) : Prop :=
  ∃ holder ∈ st.rows h.parent, holder.id = n ∧ ∃ row ∈ relatedRows st h holder, row.id = i

/-- Every row of a store has a cell for each column. -/
def Store.Complete (s : Schema) (st : Store) : Prop :=
  ∀ m ∈ s.models, ∀ row ∈ st.rows m, ∀ c ∈ m.columns, c.name ≠ idColumn.name →
    c.name ∈ row.cells.map (·.1)

theorem Column.Keeps.of_int {c : Column} (hkind : c.kind = .int) {n : Int} {cell : Cell}
    (h : c.Keeps (.int n) cell) : cell = .integer n := by
  obtain ⟨bound, hbound, rfl⟩ := h
  rw [hkind] at hbound ⊢
  obtain ⟨form, hform, hbound⟩ := Parameter.cell_ok.1 hbound
  cases hform
  change (Cell.bind (.int n)).mapError StoreError.bind = .ok bound at hbound
  rw [Cell.bind_int, mapError_eq_ok] at hbound
  split at hbound
  · cases hbound
    rfl
  · cases hbound

/-- A key that was looked up by leads to the row that was found, once it is written. -/
theorem Column.Keeps.equals_of_holds {c : Column} (hkind : c.kind = .int) {v : Value} {cell : Cell}
    (h : c.Keeps v cell) {st : Store} {row : Row} {model : String}
    (hholds : Predicate.holds st row (.compare ⟨model, idColumn⟩ .eq v) = true) :
    Cell.equals cell (.integer row.id) = true := by
  obtain ⟨bound, hbound, rfl⟩ := h
  rw [hkind] at hbound ⊢
  exact equals_kept_of_holds hholds hbound

theorem Column.Takes.equals_of_int {c : Column} (hkind : c.kind = .int) {row row' : Row} {n : Int}
    (h : c.Takes row row' (some (.int n))) (hhas : c.name ∈ row.cells.map (·.1)) :
    Cell.equals (row'.cell c.name) (.integer n) = true := by
  rcases h with hkeeps | ⟨hsame, hheld | hlacks⟩
  · rw [hkeeps.of_int hkind]
    exact Cell.equals_integers.2 rfl
  · rw [hsame]
    unfold Row.value at hheld
    rw [hkind] at hheld
    exact Cell.equals_of_same hheld
  · exact absurd hhas hlacks

section Related
variable {h : Handle} {st : Store} {row t : Row}

theorem mem_relatedRows_of_parent {fk : String} (hlink : h.relation.link = .parent fk) :
    t ∈ relatedRows st h row ↔
      t ∈ st.rows h.target ∧ Cell.equals (row.cell fk) (.integer t.id) = true := by
  unfold relatedRows
  rw [hlink]
  exact List.mem_filter

theorem mem_relatedRows_of_child (hlink : ∀ fk, h.relation.link ≠ .parent fk) :
    t ∈ relatedRows st h row ↔ t ∈ st.rows h.target ∧
      Cell.equals (.integer row.id) (t.cell h.relation.link.foreignKey) = true := by
  unfold relatedRows
  cases hl : h.relation.link with
  | parent fk => exact absurd hl (hlink fk)
  | many fk orderedBy owned => exact List.mem_filter
  | one fk owned => exact List.mem_filter

end Related

namespace Handle
variable {h : Handle} {st : Store}

theorem connects_of_parent {fk : String} (hlink : h.relation.link = .parent fk) {holder row : Row}
    (hholder : holder ∈ st.rows h.parent) (hrow : row ∈ st.rows h.target)
    (hequals : Cell.equals (holder.cell fk) (.integer row.id) = true) :
    h.Connects st holder.id row.id := by
  exact ⟨holder, hholder, rfl, row, (mem_relatedRows_of_parent hlink).2 ⟨hrow, hequals⟩, rfl⟩

theorem connects_of_child (hlink : ∀ fk, h.relation.link ≠ .parent fk) {holder row : Row}
    (hholder : holder ∈ st.rows h.parent) (hrow : row ∈ st.rows h.target)
    (hequals : Cell.equals (row.cell h.relation.link.foreignKey) (.integer holder.id) = true) :
    h.Connects st holder.id row.id := by
  rw [← Cell.equals_integer_comm] at hequals
  exact ⟨holder, hholder, rfl, row, (mem_relatedRows_of_child hlink).2 ⟨hrow, hequals⟩, rfl⟩

theorem equals_of_member {fk : String} (hlink : h.relation.link = .parent fk) {holder : Row}
    (hholder : holder ∈ st.rows h.parent) {i : Int} (hmember : .stored h.target.name i ∈
      Graph.empty.members st h (.stored h.parent.name holder.id)) :
    Cell.equals (holder.cell fk) (.integer i) = true := by
  have hfound : (st.table h.parent.table).find? holder.id = some holder :=
    Table.find?_of_mem hholder
  have hrelated : .stored h.target.name i ∈ (h.relatedOf (memberRows st h holder)).refs := by
    unfold Graph.members at hmember
    dsimp only [Graph.related?, Graph.node?, Graph.empty, List.find?_nil, Option.map_none,
      Option.bind_none] at hmember
    rwa [hfound] at hmember
  obtain ⟨row, hrow, hsame⟩ := List.mem_map.1 (Related.mem_of_mem_ofRefs hrelated)
  obtain rfl : row.id = i := (Ref.stored.inj hsame).2
  unfold memberRows at hrow
  rw [hlink] at hrow
  exact ((mem_relatedRows_of_parent hlink).1 hrow).2

end Handle

end Records
