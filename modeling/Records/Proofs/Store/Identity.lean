import Records.Proofs.Store.Frame

/-!
The ids of rows whose cells are replaced. No row takes the id of another one, so those beside them
keep theirs whatever the cells are. The rows themselves keep their ids too, unless the cells hold
another one: then there can be only one such row, and it moves to an id that no row had.
-/
namespace Records

namespace Store
variable {m : Model} {cells : List (String × Cell)} {t t' : Table} {old new row : Row}

/-- The id of a row once cells are replaced. -/
def newId (cells : List (String × Cell)) (old : Row) : Except ConstraintError Int :=
  match cells.find? (·.1 == idColumn.name) with
  | some (_, c) => c.toId
  | none => .ok old.id

theorem newId_of_spares (hcells : SparesId cells) (old : Row) : newId cells old = .ok old.id := by
  have hnone : cells.find? (·.1 == idColumn.name) = none :=
    List.find?_eq_none.2 fun e he => by simpa using hcells e he
  unfold newId
  rw [hnone]

theorem newId_of_given (hcells : ¬SparesId cells) (a b : Row) : newId cells a = newId cells b := by
  unfold newId
  split
  · rfl
  · rename_i hnone
    refine absurd (fun e he => ?_) hcells
    simpa using List.find?_eq_none.1 hnone e he

theorem changeRow_ok (h : changeRow m cells t old = .ok (t', new)) :
    newId cells old = .ok new.id ∧ Row.check m (t.erase old.id).rows new = .ok () ∧
      t' = (t.erase old.id).insert new := by
  have hbind : (newId cells old >>= fun id => do
      Row.check m (t.erase old.id).rows (old.withCells id cells)
      return ((t.erase old.id).insert (old.withCells id cells), old.withCells id cells)) =
        .ok (t', new) := by
    rw [← h]
    unfold changeRow newId
    cases cells.find? (·.1 == idColumn.name) <;> rfl
  obtain ⟨id, hid, hbind⟩ := except_bind_ok.1 hbind
  obtain ⟨⟨⟩, hcheck, hbind⟩ := except_bind_ok.1 hbind
  cases hbind
  refine ⟨?_, hcheck, rfl⟩
  rw [Row.id_withCells]
  exact hid

section Keyed
variable (hid : idColumn ∈ m.columns)
include hid

theorem ne_of_changeRow (h : changeRow m cells t old = .ok (t', new)) (hrow : row ∈ t.rows)
    (hne : row.id ≠ old.id) : row.id ≠ new.id :=
  Row.ne_of_check hid (changeRow_ok h).2.1 (Table.mem_erase.2 ⟨hrow, hne⟩)

theorem mem_changeRow (h : changeRow m cells t old = .ok (t', new)) (hrow : row ∈ t.rows)
    (hne : row.id ≠ old.id) : row ∈ t'.rows := by
  rw [(changeRow_ok h).2.2]
  exact Table.mem_insert_of_mem (Table.mem_erase.2 ⟨hrow, hne⟩) (ne_of_changeRow hid h hrow hne)

omit hid in
theorem mem_changeRow_self (h : changeRow m cells t old = .ok (t', new)) : new ∈ t'.rows := by
  rw [(changeRow_ok h).2.2]
  exact Table.mem_insert_self _ _

theorem changeRows_ids (hcells : SparesId cells) {rows : List Row} {pairs : List (Row × Row)}
    (h : changeRows m cells t rows = .ok (t', pairs)) (hrow : row ∈ t.rows) :
    ∃ row' ∈ t'.rows, row'.id = row.id := by
  induction rows generalizing t pairs row with
  | nil =>
    cases h
    exact ⟨row, hrow, rfl⟩
  | cons old rows ih =>
    obtain ⟨⟨t₁, new⟩, hfirst, h⟩ := except_bind_ok.1 h
    obtain ⟨⟨t₂, later⟩, hlater, h⟩ := except_bind_ok.1 h
    cases h
    by_cases hsame : row.id = old.id
    · have hnew := (changeRow_ok hfirst).1
      rw [newId_of_spares hcells] at hnew
      obtain ⟨row', hrow', hid'⟩ := ih hlater (mem_changeRow_self hfirst)
      exact ⟨row', hrow', by rw [hid', hsame, Except.ok.inj hnew]⟩
    · exact ih hlater (mem_changeRow hid hfirst hrow hsame)

/-- Two rows cannot be given one id. -/
theorem changeRows_of_given (hcells : ¬SparesId cells) {rows : List Row}
    (hrows : ∀ r ∈ rows, r ∈ t.rows) (hapart : rows.Pairwise fun a b => a.id ≠ b.id)
    {pairs : List (Row × Row)} (h : changeRows m cells t rows = .ok (t', pairs)) :
    rows = [] ∨ ∃ old, rows = [old] := by
  match rows with
  | [] => exact .inl rfl
  | [old] => exact .inr ⟨old, rfl⟩
  | first :: second :: rows =>
    obtain ⟨⟨t₁, new₁⟩, hfirst, h⟩ := except_bind_ok.1 h
    obtain ⟨⟨t₂, pairs₂⟩, hlater, -⟩ := except_bind_ok.1 h
    obtain ⟨⟨t₃, new₂⟩, hsecond, -⟩ := except_bind_ok.1 hlater
    have hne : second.id ≠ first.id :=
      ((List.pairwise_cons.1 hapart).1 second (List.mem_cons_self ..)).symm
    have hmem : second ∈ t.rows := hrows second (List.mem_cons_of_mem _ (List.mem_cons_self ..))
    have hapart₁ : new₁.id ≠ second.id := (ne_of_changeRow hid hfirst hmem hne).symm
    have hsame := newId_of_given hcells first second
    rw [(changeRow_ok hfirst).1, (changeRow_ok hsecond).1] at hsame
    -- The second row would take the id that the first one has by now.
    exact absurd (Except.ok.inj hsame)
      (ne_of_changeRow hid hsecond (mem_changeRow_self hfirst) hapart₁)

/-- Every row keeps its id, but for one that is given an id that no row had. -/
theorem change_ids {s : Schema} {st st' : Store} {rows : List Row}
    (hrows : ∀ r ∈ rows, r ∈ st.rows m) (hapart : rows.Pairwise fun a b => a.id ≠ b.id)
    (h : st.change s m rows cells = .ok st') {other : Model} (hrow : row ∈ st.rows other) :
    (∃ row' ∈ st'.rows other, row'.id = row.id) ∨
      other.table = m.table ∧ ¬SparesId cells ∧ rows = [row] ∧
        ∃ row' ∈ st'.rows m, ∀ old ∈ st.rows m, old.id ≠ row'.id := by
  unfold change at h
  obtain ⟨⟨t, pairs⟩, hchanged, h⟩ := except_bind_ok.1 h
  dsimp only at h
  split at h
  · cases h
    by_cases htable : other.table = m.table
    · unfold Store.rows
      rw [htable, table_setTable_self]
      have hmem : row ∈ (st.table m.table).rows := htable ▸ hrow
      by_cases hcells : SparesId cells
      · exact .inl (changeRows_ids hid hcells hchanged hmem)
      rcases changeRows_of_given hid hcells hrows hapart hchanged with rfl | ⟨old, rfl⟩
      · cases hchanged
        exact .inl ⟨row, hmem, rfl⟩
      obtain ⟨⟨t₁, new⟩, hfirst, hrest⟩ := except_bind_ok.1 hchanged
      cases hrest
      by_cases hsame : row.id = old.id
      · by_cases hkept : new.id = old.id
        · exact .inl ⟨new, mem_changeRow_self hfirst, by rw [hkept, hsame]⟩
        obtain rfl : row = old := by
          have hfound := Table.find?_of_mem hmem
          rw [hsame, Table.find?_of_mem (hrows old (List.mem_singleton_self _))] at hfound
          exact (Option.some.inj hfound).symm
        refine .inr ⟨rfl, hcells, rfl, new, mem_changeRow_self hfirst, fun r hr => ?_⟩
        by_cases hself : r.id = row.id
        · exact fun hnew => hkept (hnew.symm.trans hself)
        · exact ne_of_changeRow hid hfirst hr hself
      · exact .inl ⟨row, mem_changeRow hid hfirst hmem hsame, rfl⟩
    · exact .inl ⟨row, by rwa [rows_setTable_of_ne htable], rfl⟩
  · cases h

end Keyed

end Store

end Records
