import Records.Proofs.Resource.Bulk
import Records.Proofs.Resource.Saved
import Records.Proofs.Store.Unchanged

/-!
The same values given to a record by itself, or in bulk. By itself, it is written the values that
are not equal to what it reads as; in bulk it is written all of them. The two agree, since what a
column keeps of a value that equals what it reads as is what it has. The least integer of 64 bits is
the exception: a column may keep it as an integer or as a number.
-/
namespace Records

open Records.Calendar (Moment)

theorem filter_eq_singleton {α : Type} {p : α → Bool} {xs : List α} {x : α} (hdistinct : xs.Nodup)
    (h : ∀ y, y ∈ xs ∧ p y = true ↔ y = x) : xs.filter p = [x] := by
  refine List.perm_singleton.1 ((List.perm_ext_iff_of_nodup (hdistinct.filter p)
    (List.nodup_singleton x)).2 fun y => ?_)
  rw [List.mem_filter, h, List.mem_singleton]

namespace Model
variable {m : Model} {now : Moment} {es : List (String × Value)} {row a b : Row}

/-- A row that values were merged into: a column that is given a value keeps it, or is as it was
because it reads as an equal one. All else but the stamp is left alone. -/
structure Merges (m : Model) (es : List (String × Value)) (row row' : Row) : Prop where
  id_eq : row'.id = row.id
  given : ∀ c ∈ m.columns, c ≠ updatedAt → ∀ v, Value.lookup? c.name es = some v →
    c.Keeps v (row'.cell c.name) ∨
      (row.value c).same v = true ∧ row'.cell c.name = row.cell c.name
  frame : ∀ c ∈ m.columns, c ≠ updatedAt → Value.lookup? c.name es = none →
    row'.cell c.name = row.cell c.name

/-- What is merged into a row, and what is written over it, leave the same in a column that holds
something it keeps, but for the least integer. -/
theorem Merges.agrees (ha : m.Merges es row a) (hb : m.Revises now es row b) {c : Column}
    (hc : c ∈ m.columns) (hne : c ≠ updatedAt) {w : Value} (hw : c.Keeps w (row.cell c.name)) :
    b.cell c.name = a.cell c.name ∨
      c.kind = .int ∧ (a.cell c.name).IsLeast ∧ (b.cell c.name).IsLeast := by
  cases hv : Value.lookup? c.name es with
  | none => exact .inl ((hb.frame c hc hne hv).trans (ha.frame c hc hne hv).symm)
  | some v =>
    have hwritten := hb.given c hc v hv
    rcases ha.given c hc hne v hv with hkept | ⟨hsame, hunchanged⟩
    · exact .inl (hwritten.eq hkept)
    · rw [hunchanged]
      exact hw.eq_of_same hwritten hsame

end Model

namespace Store
variable {s : Schema} {m : Model} {now : Moment} {st st' : Store} {row : Row}
  {es : List (String × Value)}

theorem merges_of_rewrite (hs : s.Stamped) (hm : m ∈ s.models) (hst : st.Complete s)
    (hes : SparesId es) (hrow : row ∈ st.rows m) (h : st.rewrite s m now row es = .ok st') :
    ∃ row', st' = st.withRow m row' ∧ m.Merges es row row' := by
  obtain ⟨row', hst', hid, hrow'⟩ := rewrite_ok hs hm hes hrow h
  -- A column that no change is about is as it was.
  have hframe (c : Column) (hc : c ∈ m.columns) (hne : c ≠ updatedAt)
      (hfree : ∀ v, (c, v) ∉ m.changedValues row es) : row'.cell c.name = row.cell c.name := by
    rcases hrow' with ⟨rfl, -⟩ | ⟨-, hrewrites, -⟩
    · rfl
    · exact frame_of_rewrites hs hm hc hne hrewrites hfree
  refine ⟨row', hst', hid, fun c hc hne v hv => ?_, fun c hc hne hnone => ?_⟩
  · cases hsame : (row.value c).same v with
    | true =>
      refine .inr ⟨rfl, hframe c hc hne fun v' hv' => ?_⟩
      obtain ⟨-, hgiven, hdiffers⟩ := Model.mem_changedValues.1 hv'
      obtain rfl := Option.some.inj (hv.symm.trans hgiven)
      rw [hsame] at hdiffers
      cases hdiffers
    | false =>
      have hchanged : (c, v) ∈ m.changedValues row es := Model.mem_changedValues.2 ⟨hc, hv, hsame⟩
      rcases hrow' with ⟨-, hnone⟩ | ⟨-, hrewrites, -⟩
      · rw [hnone] at hchanged
        cases hchanged
      · exact .inl (hrewrites.keeps _ (Model.mem_updateValues_of_changed (hs.names m hm) hchanged)
          (hst m hm row hrow c hc (hes _ (Value.mem_of_lookup? hv))))
  · refine hframe c hc hne fun v hv => ?_
    obtain ⟨-, hgiven, -⟩ := Model.mem_changedValues.1 hv
    rw [hnone] at hgiven
    cases hgiven

end Store

namespace Model
variable {m : Model} {st : Store} {row : Row} {id : Value}

theorem lists_singleton : m.lists [id] row = true ↔
    m.isLive row = true ∧ m.Finds idColumn id (.integer row.id) := by
  rw [lists_iff, finds_id_iff]
  refine and_congr_right fun _ => ?_
  simp only [List.mem_singleton, exists_eq_left, List.headD_cons, ite_self]

/-- One id selects the row that has it. -/
theorem filter_lists (hrow : row ∈ st.rows m) (hlive : m.isLive row = true)
    (hid : m.Finds idColumn id (.integer row.id)) : (st.rows m).filter (m.lists [id]) = [row] := by
  refine filter_eq_singleton ((st.table m.table).nodup_ids.of_map _) fun other => ?_
  rw [lists_singleton]
  constructor
  · rintro ⟨hother, -, hfinds⟩
    exact Store.eq_of_id hrow hother (hid.unique hfinds)
  · rintro rfl
    exact ⟨hrow, hlive, hid⟩

theorem fillValues_of_columns {es : List (String × Value)}
    (hcolumns : ∀ e ∈ es, m.hasColumn e.1 = true) (hes : SparesId es) : m.fillValues es = es := by
  unfold fillValues columnValues
  rw [List.filter_eq_self.2 hcolumns, List.filter_eq_self]
  exact fun e he => bne_iff_ne.2 (hes e he)

end Model

namespace Resource
variable {r : Resource} {st : Store} {se se' : Session} {row : Row} {id : Value}
  {es : List (String × Value)} {ref : Ref} {n : Nat}

theorem nestedItems_of_columns (h : ∀ e ∈ es, r.model.hasColumn e.1 = true) :
    r.nestedItems es = [] := by
  induction es with
  | nil => rfl
  | cons e es ih =>
    obtain ⟨hcolumn, hcolumns⟩ := List.forall_mem_cons.1 h
    obtain ⟨key, v⟩ := e
    simpa only [nestedItems, hcolumn] using ih hcolumns

section Both
variable (hs : r.schema.Stamped) (hm : r.model ∈ r.schema.models) (hst : st.Complete r.schema)
  (hrow : row ∈ st.rows r.model) (hid : r.model.Finds idColumn id (.integer row.id))
  (hes : SparesId es)
include hs hm hst hrow hid hes

/-- An update with nothing but column values merges them into the row. -/
theorem update_columns (hse : se.IsFresh st) (hactive : se.inactive = false)
    (hcolumns : ∀ e ∈ es, r.model.hasColumn e.1 = true)
    (h : (r.update id (.object es) se).result = .ok (some ref)) :
    ∃ row', (r.update id (.object es) se).session.store = st.withRow r.model row' ∧
      r.model.Merges es row row' := by
  obtain rfl := hse.store_eq
  obtain ⟨k, g, w, -, ⟨found, hfound, rfl, hholds⟩, -, hstaging, hflush, hstore, -⟩ :=
    update_saved hs.toKeyed hm hse hactive h
  have hsame : found.id = row.id := by
    have hfinds := Model.holds_exactly_iff.1 hholds
    rw [Row.cell_id] at hfinds
    exact hid.unique hfinds
  obtain rfl := Store.eq_of_id hrow hfound hsame
  -- There are no nested records, so the values are all that is staged.
  have hitems : Update.items ⟨r, se.store, found.id, .object es⟩ = [] :=
    nestedItems_of_columns hcolumns
  rw [Update.staging, hitems] at hstaging
  obtain rfl : Update.started ⟨r, se.store, found.id, .object es⟩ = g := Except.ok.inj hstaging
  have hwritten := (Staging.flush_edit hm hrow (r.model.fillValues es)).symm.trans hflush
  rw [Model.fillValues_of_columns hcolumns hes] at hwritten
  cases hrewritten : se.store.rewrite r.schema r.model se.now found es with
  | error e =>
    rw [hrewritten] at hwritten
    cases hwritten
  | ok st' =>
    rw [hrewritten] at hwritten
    cases hwritten
    rw [hstore]
    exact Store.merges_of_rewrite hs hm hst hes hrow hrewritten

/-- A bulk update of one record writes the values over its row. -/
theorem multiUpdate_one (hlive : r.model.isLive row = true) (hse : se.Ready st se.now)
    (h : (r.multiUpdate (.list [id]) (.object es) se).result = .ok n) :
    ∃ row', (r.multiUpdate (.list [id]) (.object es) se).session.store =
        st.withRow r.model row' ∧ r.model.Revises se.now es row row' := by
  obtain rfl := hse.store_eq
  have hids : (Value.list [id]).toItems = .ok [id] := rfl
  have hattributes : (Value.object es).toEntries = .ok es := rfl
  have hleaves := leaves_multiUpdate hm hse hids hattributes rfl
  rw [h] at hleaves
  obtain ⟨-, ⟨hnone, -⟩ | ⟨st', hwritten, hready⟩⟩ := hleaves
  · cases hnone
  obtain ⟨cells, hcells, hchanged, -⟩ := bulkWrite_cells hwritten
  simp only [Model.allHold_listing] at hchanged
  rw [Model.filter_lists hrow hlive hid] at hchanged
  have has := suits_givenValues hs hm se.now hes
  rw [hready.store_eq]
  exact ⟨_, Store.change_eq (Store.spares_cells has hcells) hchanged,
    Model.revises_of_rewrites (hs.names _ hm) (hs.stamps _ hm) hes (hst _ hm row hrow)
      (has.rewrites hcells row)⟩

end Both

/-- An update of a record and a bulk update of it alone, each in a fresh session on the same store,
leave stores that differ in that row at most, and there in the stamp at most. In a column of
integers, one may leave the least integer and the other the number; and nothing is said of a column
that held what it keeps of no value. -/
theorem bulk_update_agrees (hs : r.schema.Stamped) (hm : r.model ∈ r.schema.models)
    (hst : st.Complete r.schema) (hse : se.IsFresh st) (hactive : se.inactive = false)
    (hse' : se'.IsFresh st) (hactive' : se'.inactive = false) (hrow : row ∈ st.rows r.model)
    (hlive : r.model.isLive row = true) (hid : r.model.Finds idColumn id (.integer row.id))
    (hcolumns : ∀ e ∈ es, r.model.hasColumn e.1 = true) (hes : SparesId es)
    (h : (r.update id (.object es) se).result = .ok (some ref))
    (h' : (r.multiUpdate (.list [id]) (.object es) se').result = .ok n) :
    let one := (r.update id (.object es) se).session.store
    let bulk := (r.multiUpdate (.list [id]) (.object es) se').session.store
    ∃ a ∈ one.rows r.model, ∃ b, a.id = row.id ∧ b.id = row.id ∧ bulk = one.withRow r.model b ∧
      ∀ c ∈ r.model.columns, c ≠ updatedAt → (∃ w, c.Keeps w (row.cell c.name)) →
        b.cell c.name = a.cell c.name ∨
          c.kind = .int ∧ (a.cell c.name).IsLeast ∧ (b.cell c.name).IsLeast := by
  intro one bulk
  have hready : se'.Ready st se'.now := ⟨hse'.store_eq, rfl, hse'.staged, hactive'⟩
  obtain ⟨a, hone, ha⟩ := update_columns hs hm hst hrow hid hes hse hactive hcolumns h
  obtain ⟨b, hbulk, hb⟩ := multiUpdate_one hs hm hst hrow hid hes hlive hready h'
  have hids : b.id = a.id := hb.id_eq.trans ha.id_eq.symm
  refine ⟨a, ?_, b, ha.id_eq, hb.id_eq, ?_, fun c hc hne ⟨w, hw⟩ => ha.agrees hb hc hne hw⟩
  · change a ∈ (r.update id (.object es) se).session.store.rows r.model
    rw [hone]
    exact Store.mem_rows_withRow.2 (.inl rfl)
  · change (r.multiUpdate (.list [id]) (.object es) se').session.store =
      (r.update id (.object es) se).session.store.withRow r.model b
    rw [hone, hbulk, Store.withRow_withRow hids]

/-- Ann is given the rating that she has, as a float, and loses her country. -/
theorem bulk_update_agrees_ann :
    let r := Library.resource Library.author
    let se := Library.visit Library.catalogue
    let es : List (String × Value) :=
      [("rating", .float (Number.Double.ofInt 5)), ("country", .null)]
    let one := r.update (.int 1) (.object es) se
    let bulk := r.multiUpdate (.list [.int 1]) (.object es) se
    one.result = .ok (some (.stored "Author" 1)) ∧ bulk.result = .ok 1 ∧
      ∃ a ∈ one.session.store.rows r.model, ∃ b,
        bulk.session.store = one.session.store.withRow r.model b ∧
          b.cell "rating" = a.cell "rating" ∧ b.cell "country" = a.cell "country" := by
  intro r se es one bulk
  have hone : one.result = .ok (some (.stored "Author" 1)) :=
    except_of_toOption (by decide +kernel)
  have hbulk : bulk.result = .ok 1 := except_of_toOption (by decide +kernel)
  have hs : r.schema.Stamped := Library.stamped
  have hm : r.model ∈ r.schema.models := by decide
  have hst : Library.catalogue.Complete r.schema := by unfold Store.Complete; decide +kernel
  have hfresh : se.IsFresh Library.catalogue := ⟨rfl, rfl, rfl⟩
  let ann : Row := Library.rowOf r.model (1, [.text "Ann", .text "AR", .text "active",
    .integer 5, .integer 1, .text "likes tea", .text "2024-01-15 00:00:00.000000", .null, .null])
  have hrow : ann ∈ Library.catalogue.rows r.model := by decide +kernel
  have hid : r.model.Finds idColumn (.int 1) (.integer ann.id) :=
    Model.finds_id_iff.2 (by decide +kernel)
  obtain ⟨a, ha, b, haid, -, hstores, hagrees⟩ := bulk_update_agrees hs hm hst hfresh rfl hfresh rfl
    hrow rfl hid (by decide) (by unfold SparesId; decide) hone hbulk
  have hrating : ∀ x ∈ one.session.store.rows r.model, x.id = 1 → x.cell "rating" = .integer 5 := by
    decide +kernel
  refine ⟨hone, hbulk, a, ha, b, hstores, ?_, ?_⟩
  · rcases hagrees ⟨"rating", .int, true, false, some (.value (.int 0)), false, none⟩
      (by decide) (by decide) ⟨.int 5, _, rfl, rfl⟩ with hsame | ⟨-, hleast, -⟩
    · exact hsame
    · rw [hrating a ha haid] at hleast
      rcases hleast with hleast | ⟨x, hleast, -⟩ <;> cases hleast
  · rcases hagrees (Library.textColumn "country") (by decide) (by decide)
      ⟨.text "AR", _, rfl, rfl⟩ with hsame | ⟨hkind, -⟩
    · exact hsame
    · cases hkind

/-- Two columns that an equal value makes a difference to: of the least integer as a float, and of
a moment that is held without its fraction. -/
theorem bulk_update_disagrees :
    let books := Library.resource Library.book
    let venues := Library.resource Library.venue
    let low := Library.rowOf Library.book (1, [.null, .text "Low", .null,
      .integer (-9223372036854775808), .text "2024-01-20 10:00:00.000000", .null, .null])
    let old := Library.rowOf Library.venue (1, [.text "Hall", .null, .null, .null,
      .text "2024-01-01 00:00:00", .null])
    let se := Library.visit ((Library.catalogue.withRow Library.book low).withRow Library.venue old)
    let pages : Value :=
      .object [("pages", .float (Number.Double.ofInt (-9223372036854775808)))]
    let opened : Value :=
      .object [("created_at", .moment ⟨⟨2024, 1, 1, by decide⟩, .midnight, none⟩)]
    let one (r : Resource) (values : Value) := r.update (.int 1) values se
    let bulk (r : Resource) (values : Value) := r.multiUpdate (.list [.int 1]) values se
    ((one books pages).result.toOption = some (some (.stored "Book" 1)) ∧
        (bulk books pages).result.toOption = some 1 ∧
        ((one books pages).session.store.rows books.model).map (·.cell "pages") ≠
          ((bulk books pages).session.store.rows books.model).map (·.cell "pages")) ∧
      (one venues opened).result.toOption = some (some (.stored "Venue" 1)) ∧
        (bulk venues opened).result.toOption = some 1 ∧
        ((one venues opened).session.store.rows venues.model).map (·.cell "created_at") ≠
          ((bulk venues opened).session.store.rows venues.model).map (·.cell "created_at") := by
  decide +kernel

end Resource

end Records
