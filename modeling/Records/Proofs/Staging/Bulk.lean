import Records.Proofs.Staging.Overwritten

/-!
One update of several rows. Each of the rows is rewritten in its place, whatever becomes of the
others, and nothing else is touched.
-/
namespace Records

open Records.Calendar (Moment)

namespace Table
variable {t : Table} {row new : Row}

theorem rows_insert (hrow : row ∈ t.rows) (hid : new.id = row.id) :
    (t.insert new).rows = t.rows.map fun r => if r = row then new else r := by
  have hrows (rs : List Row) (hrs : rs.Pairwise fun a b => a.id < b.id) (hrow : row ∈ rs) :
      insertRow new rs = rs.map fun r => if r = row then new else r := by
    induction rs with
    | nil => cases hrow
    | cons r rs ih =>
      obtain ⟨hr, hrs⟩ := List.pairwise_cons.1 hrs
      unfold insertRow
      rw [List.map_cons]
      by_cases hfirst : r = row
      · subst hfirst
        have hbehind : rs.map (fun x => if x = r then new else x) = rs := by
          conv_rhs => rw [← List.map_id rs]
          refine List.map_congr_left fun x hx => if_neg ?_
          rintro rfl
          exact Int.lt_irrefl _ (hr x hx)
        rw [if_neg (by omega), if_pos hid.symm, if_pos rfl, hbehind]
      · have hmem : row ∈ rs := (List.mem_cons.1 hrow).resolve_left (Ne.symm hfirst)
        have := hr row hmem
        rw [if_neg (by omega), if_neg (by omega), if_neg hfirst, ih hrs hmem]
  exact hrows t.rows t.ascending hrow

end Table

namespace Store
variable {m : Model} {cells : List (String × Cell)} {t t' : Table} {rows : List Row}
  {pairs : List (Row × Row)}

/-- Where ids are left alone, rows that are changed one after another are each changed in their
place. -/
theorem rows_changeRows (hcells : SparesId cells) (hrows : ∀ row ∈ rows, row ∈ t.rows)
    (hdistinct : (rows.map (·.id)).Nodup) (h : changeRows m cells t rows = .ok (t', pairs)) :
    t'.rows = t.rows.map fun row => if row ∈ rows then row.withCells row.id cells else row := by
  induction rows generalizing t pairs with
  | nil =>
    cases h
    simp
  | cons old rows ih =>
    obtain ⟨⟨t₁, new⟩, hfirst, h⟩ := except_bind_ok.1 h
    obtain ⟨⟨t₂, later⟩, hlater, h⟩ := except_bind_ok.1 h
    cases h
    rw [changeRow_spares hcells] at hfirst
    obtain ⟨⟨⟩, -, hfirst⟩ := except_bind_ok.1 hfirst
    cases hfirst
    obtain ⟨hold, hdistinct⟩ := List.nodup_cons.1 (List.map_cons ▸ hdistinct)
    obtain ⟨hmem, hrows⟩ := List.forall_mem_cons.1 hrows
    have hid := Row.id_withCells old old.id cells
    generalize hnew : old.withCells old.id cells = new at hid hlater
    -- The rows that are changed later have other ids than this one, whatever it has become.
    have hapart (row : Row) (hrow : row ∈ rows) : row.id ≠ old.id :=
      fun hsame => hold (hsame ▸ List.mem_map_of_mem hrow)
    have hlater_mem (row : Row) (hrow : row ∈ rows) : row ∈ (t.insert new).rows :=
      Table.mem_insert.2 (.inr ⟨hrows row hrow, hid ▸ hapart row hrow⟩)
    rw [ih hlater_mem hdistinct hlater, Table.rows_insert hmem hid, List.map_map]
    refine List.map_congr_left fun row hrow => ?_
    rw [Function.comp_apply]
    by_cases hsame : row = old
    · subst hsame
      rw [if_pos rfl, if_pos (List.mem_cons_self ..), if_neg fun hin => hapart new hin hid, hnew]
    · rw [if_neg hsame]
      simp only [List.mem_cons, hsame, false_or]

theorem change_rows {s : Schema} {st st' : Store} (hcells : SparesId cells)
    (hrows : ∀ row ∈ rows, row ∈ st.rows m) (hdistinct : (rows.map (·.id)).Nodup)
    (h : st.change s m rows cells = .ok st') :
    st'.rows m = ((st.rows m).map fun row =>
        if row ∈ rows then row.withCells row.id cells else row) ∧
      ∀ name, name ≠ m.table → st'.table name = st.table name := by
  unfold change at h
  obtain ⟨⟨t, pairs⟩, hchanged, h⟩ := except_bind_ok.1 h
  dsimp only at h
  split at h
  · cases h
    refine ⟨?_, fun name hname => table_setTable_of_ne hname ..⟩
    unfold Store.rows
    rw [table_setTable_self]
    exact rows_changeRows hcells hrows hdistinct hchanged
  · cases h

end Store

namespace Model
variable {m : Model} {now : Moment} {es : List (String × Value)} {row row' : Row}

/-- What a mapping gives to the columns that it names. -/
def givenValues (m : Model) (es : List (String × Value)) : Assigned :=
  m.columns.filterMap fun c => (Value.lookup? c.name es).map fun v => (c, v)

theorem mem_givenValues {a : Column × Value} :
    a ∈ m.givenValues es ↔ a.1 ∈ m.columns ∧ Value.lookup? a.1.name es = some a.2 := by
  obtain ⟨c, v⟩ := a
  unfold givenValues
  rw [List.mem_filterMap]
  constructor
  · rintro ⟨c', hc', h⟩
    obtain ⟨v', hv', hpair⟩ := Option.map_eq_some_iff.1 h
    cases hpair
    exact ⟨hc', hv'⟩
  · rintro ⟨hc, hv⟩
    exact ⟨c, hc, Option.map_eq_some_iff.2 ⟨v, hv, rfl⟩⟩

theorem nodup_givenValues (hnames : (m.columns.map (·.name)).Nodup)
    (es : List (String × Value)) : ((m.givenValues es).map (·.1.name)).Nodup := by
  refine (sublist_keys_filterMap (fun c _ ha => ?_) m.columns).nodup hnames
  obtain ⟨v, -, rfl⟩ := Option.map_eq_some_iff.1 ha
  rfl

theorem spares_givenValues (hes : SparesId es) : (m.givenValues es).Spares :=
  fun _ ha => hes _ (Value.mem_of_lookup? (mem_givenValues.1 ha).2)

/-- A row that was given values: a column that they name keeps its value, the stamp is set unless
they give it, and all else is left alone. -/
structure Revises (m : Model) (now : Moment) (es : List (String × Value)) (row row' : Row) :
    Prop where
  id_eq : row'.id = row.id
  given : ∀ c ∈ m.columns, ∀ v, Value.lookup? c.name es = some v → c.Keeps v (row'.cell c.name)
  stamped : updatedAt ∈ m.columns → Value.lookup? updatedAt.name es = none →
    updatedAt.Keeps (.moment now) (row'.cell updatedAt.name)
  frame : ∀ c ∈ m.columns, c ≠ updatedAt → Value.lookup? c.name es = none →
    row'.cell c.name = row.cell c.name

theorem revises_of_rewrites (hnames : (m.columns.map (·.name)).Nodup)
    (hstamps : ∀ c ∈ m.columns, c.refreshed = true → c = updatedAt) (hes : SparesId es)
    (hkeys : ∀ c ∈ m.columns, c.name ≠ idColumn.name → c.name ∈ row.cells.map (·.1))
    (h : (m.updateValues now (m.givenValues es)).Rewrites row row') :
    m.Revises now es row row' where
  id_eq := h.id_eq
  given c hc v hv := by
    have hgiven : (c, v) ∈ m.givenValues es := mem_givenValues.2 ⟨hc, hv⟩
    exact h.keeps _ (mem_updateValues_of_mem (nodup_givenValues hnames es) hgiven hc)
      (hkeys c hc (spares_givenValues hes _ hgiven))
  stamped hc hnone := by
    have hfree (b : Column × Value) (hb : b ∈ m.givenValues es) : b.1.name ≠ updatedAt.name := by
      intro hname
      have hgiven := (mem_givenValues.1 hb).2
      rw [hname, hnone] at hgiven
      cases hgiven
    have hname : updatedAt.name ≠ idColumn.name := by decide
    exact h.keeps _ (mem_updateValues_of_refreshed hc rfl hfree) (hkeys _ hc hname)
  frame c hc hne hnone := by
    refine h.frame c.name fun a ha hname => ?_
    rcases updateValues_cases ha with hgiven | ⟨ha, hrefreshed, -⟩
    · have hvalue := (mem_givenValues.1 hgiven).2
      rw [hname, hnone] at hvalue
      cases hvalue
    · obtain rfl := eq_of_column_name hnames hc ha hname
      exact absurd (hstamps _ ha hrefreshed) hne

end Model

/-- A store in which the chosen rows of a model were given values, and nothing else changed. -/
structure Store.Revised (m : Model) (now : Moment) (es : List (String × Value))
    (chosen : Row → Bool) (st st' : Store) : Prop where
  rows : List.Forall₂
    (fun row row' => if chosen row then m.Revises now es row row' else row' = row)
    (st.rows m) (st'.rows m)
  frame : ∀ name, name ≠ m.table → st'.table name = st.table name

theorem Store.revised_of_none {m : Model} {chosen : Row → Bool} (h : ∀ row, chosen row = false)
    (now : Moment) (es : List (String × Value)) (st : Store) : st.Revised m now es chosen st := by
  refine ⟨List.forall₂_same.2 fun row _ => ?_, fun _ _ => rfl⟩
  rw [if_neg (by rw [h]; decide)]

end Records
