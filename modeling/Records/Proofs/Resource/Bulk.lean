import Records.Proofs.Filter.Equality
import Records.Proofs.Library
import Records.Proofs.Resource.Inserted
import Records.Proofs.Resource.Lookup
import Records.Proofs.Staging.Bulk

/-!
Bulk updates. A list of ids selects the live rows that have one of them, as the list is bound; these
rows take the given values, and nothing else changes. The first value of the list tells how all of
them are bound, so after a float the others are rounded to floats.
-/
namespace Records

open Records.Action
open Records.Calendar (Moment)
open Records.Filter (Predicate Field membershipParameters comparisonParameter)

namespace Staging

theorem flush_nothing {s : Schema} {m : Model} (hm : m ∈ s.models) (now : Moment) (st : Store)
    (held : Graph) : Staging.empty.flush s now st held = .ok ⟨st, []⟩ := by
  have hremovals : Staging.empty.removals s st held = [] := reach_nil ..
  have hplan : Staging.empty.plan s st held = .flat [] [] := by
    unfold plan settledEdits cleared
    rw [hremovals]
    rfl
  unfold flush
  rw [hplan, Plan.write_flat hm (by simp) (by simp)]
  exact Plan.writeLevel_idle (Plan.draftsAt_flat ..) (by rw [Plan.editsAt_flat]; simp)

end Staging

/-- Cells beyond those of the assigned values are left out. -/
theorem Assigned.kept_append {as : Assigned} {front : List Cell}
    (h : bindAll as.parameters = .ok front) (back : List Cell) :
    as.kept (front ++ back) = as.kept front := by
  obtain ⟨forms, hforms, hbound⟩ := except_bind_ok.1 h
  have hlength : as.length = front.length := by
    rw [length_of_mapM_ok hbound, length_of_mapM_ok hforms, parameters, List.length_map]
  unfold Assigned.kept
  conv_lhs => rw [← List.append_nil as]
  rw [List.zipWith_append hlength, List.zipWith_nil_left, List.append_nil]

namespace Model
variable {m : Model} {st : Store} {row : Row} {vs : List Value}

/-- A live row whose id a list of values has, as the list is bound. -/
def lists (m : Model) (vs : List Value) (row : Row) : Bool :=
  m.isLive row && (membershipParameters ⟨m.table, idColumn⟩ vs).any fun p =>
    Predicate.compareHolds ⟨m.table, idColumn⟩ .eq p row

theorem allHold_listing (st : Store) (m : Model) (vs : List Value) (row : Row) :
    Predicate.allHold st row ([.among ⟨m.table, idColumn⟩ vs] ++ notTrashed m) =
      m.lists vs row := by
  rw [Predicate.allHold_append, allHold_notTrashed, Bool.and_comm]
  unfold lists
  simp only [Predicate.allHold, Predicate.holds, Bool.and_true]

/-- Whether a value that is bound for a list has the id of a row. -/
theorem compareHolds_id {p : Parameter} : Predicate.compareHolds ⟨m.table, idColumn⟩ .eq p row =
    Cell.equals (.integer row.id) (Filter.comparedCell ⟨m.table, idColumn⟩ p) := by
  unfold Predicate.compareHolds Cell.equals
  dsimp only
  rw [Row.cell_id]
  cases Cell.compare? (.integer row.id) (Filter.comparedCell ⟨m.table, idColumn⟩ p) with
  | none => rfl
  | some o => cases o <;> rfl

/-- A text that is no number is the id of no row. -/
theorem compareHolds_text {p : Parameter} {t : String} (hcell : p.cell = .ok (.text t))
    (ht : Cell.number? t = none) :
    Predicate.compareHolds ⟨m.table, idColumn⟩ .eq p row = false := by
  rw [compareHolds_id]
  unfold Filter.comparedCell
  rw [hcell]
  change Cell.equals (.integer row.id) ((Cell.text t).compared .integer) = false
  rw [Cell.compared_text ht]
  rfl

theorem finds_id_iff {v : Value} : m.Finds idColumn v (.integer row.id) ↔
    Predicate.compareHolds ⟨m.table, idColumn⟩ .eq ⟨Codec.ofValue .int v, v⟩ row = true := by
  have hcell : (comparisonParameter ⟨m.table, idColumn⟩ v).cell =
      Parameter.cell ⟨Codec.ofValue .int v, v⟩ := Filter.cell_comparisonParameter ..
  rw [compareHolds_id]
  unfold Finds Filter.comparedCell
  rw [← hcell]
  split
  · rename_i hnull
    subst hnull
    exact ⟨nofun, nofun⟩
  · rfl

theorem cell_of_encoded {k : Codec} {v : Value} (h : k.encode v = .ok v) :
    Parameter.cell ⟨k, v⟩ = Parameter.cell ⟨.raw, v⟩ := by
  unfold Parameter.cell
  dsimp only
  rw [h]
  rfl

/-- Bound by the type of another value, a value has the ids that it has by itself, unless it is made
a float. -/
theorem compareHolds_id_codec {v w : Value} (hw : ∀ x, w ≠ .float x) (hv : v ≠ .null)
    (hbindable : Parameter.Bindable ⟨Codec.ofValue .int w, v⟩) :
    Predicate.compareHolds ⟨m.table, idColumn⟩ .eq ⟨Codec.ofValue .int w, v⟩ row =
      Predicate.compareHolds ⟨m.table, idColumn⟩ .eq ⟨Codec.ofValue .int v, v⟩ row := by
  have hcodec : Codec.ofValue .int w = .raw ∨ Codec.ofValue .int w = .boolean ∨
      Codec.ofValue .int w = .date ∨ Codec.ofValue .int w = .moment := by
    cases w with
    | float x => exact absurd rfl (hw x)
    | bool | int | text | bytes | date | moment | null | list | tuple | object =>
      simp [Codec.ofValue, Kind.codec]
  have hsame {k l : Codec} (h : Parameter.cell ⟨k, v⟩ = Parameter.cell ⟨l, v⟩) :
      Predicate.compareHolds ⟨m.table, idColumn⟩ .eq ⟨k, v⟩ row =
        Predicate.compareHolds ⟨m.table, idColumn⟩ .eq ⟨l, v⟩ row :=
    congrFun (Filter.compareHolds_congr h) row
  have hdate (d : Calendar.Date) := Cell.number?_date d
  have hstored (d : Moment) := Cell.number?_of_colon d.colon_mem_stored
  have hspaced (d : Moment) := Cell.number?_of_colon d.colon_mem_spaced
  obtain ⟨cell, hcell⟩ := hbindable
  rcases hcodec with hcodec | hcodec | hcodec | hcodec <;> rw [hcodec] at hcell ⊢
  · cases v with
    | null => exact absurd rfl hv
    | bool | int | float | text | bytes => exact hsame rfl
    | date d => rw [compareHolds_text rfl (hdate d), compareHolds_text rfl (hdate d)]
    | moment d => rw [compareHolds_text rfl (hspaced d), compareHolds_text rfl (hstored d)]
    | list | tuple | object => cases hcell
  · obtain ⟨form, hform, -⟩ := Parameter.cell_ok.1 hcell
    have hform : encodeBoolean v = .ok form := mapError_eq_ok.1 hform
    obtain rfl : form = v := encodeBoolean_ok hform
    have hraw := cell_of_encoded (k := .boolean) hform
    cases form with
    | null => exact absurd rfl hv
    | bool | int | float => exact hsame hraw
    | text | bytes | date | moment | list | tuple | object => cases hform
  · cases v with
    | null => exact absurd rfl hv
    | date d => rfl
    | moment d => rw [compareHolds_text rfl (hdate d.date), compareHolds_text rfl (hstored d)]
    | bool | int | float | text | bytes | list | tuple | object => cases hcell
  · cases v with
    | null => exact absurd rfl hv
    | date d => rw [compareHolds_text rfl (hstored _), compareHolds_text rfl (hdate d)]
    | moment d => rfl
    | bool | int | float | text | bytes | list | tuple | object => cases hcell

/-- A float is the id of the row whose id is equal to it. -/
theorem compareHolds_id_number {v : Value} (hv : v ≠ .null)
    (hbindable : Parameter.Bindable ⟨.number, v⟩) :
    Predicate.compareHolds ⟨m.table, idColumn⟩ .eq ⟨.number, v⟩ row = true ↔
      ∃ x, encodeNumber v = .ok (.float x) ∧ x.compareInt? row.id = some .eq := by
  obtain ⟨cell, hcell⟩ := hbindable
  obtain ⟨form, hform, hbound⟩ := Parameter.cell_ok.1 hcell
  have hform : encodeNumber v = .ok form := mapError_eq_ok.1 hform
  obtain ⟨x, rfl⟩ := encodeNumber_ok hv hform
  rw [compareHolds_id]
  unfold Filter.comparedCell
  rw [hcell]
  change Cell.equals (.integer row.id) (cell.compared .integer) = true ↔ _
  simp only [hform, Except.ok.injEq, Value.float.injEq, exists_eq_left']
  have hequals : Cell.equals (.integer row.id) (.real x) = true ↔
      x.compareInt? row.id = some .eq := by
    rw [Cell.equals_integer_comm]
    exact Cell.equals_real
  cases x with
  | nan =>
    cases hbound
    exact ⟨nofun, nofun⟩
  | infinite negative =>
    cases hbound
    exact hequals
  | finite negative mantissa exponent hmantissa =>
    cases hbound
    exact hequals

theorem lists_nil (m : Model) (row : Row) : m.lists [] row = false := Bool.and_false _

theorem lists_iff : m.lists vs row = true ↔ m.isLive row = true ∧ ∃ v ∈ vs,
    Predicate.compareHolds ⟨m.table, idColumn⟩ .eq
      ⟨if vs.contains .null then Codec.ofValue .int v
        else Codec.ofValue .int (vs.headD .null), v⟩ row = true := by
  unfold lists membershipParameters
  rw [Bool.and_eq_true, List.any_map, List.any_eq_true]
  rfl

/-- Without a null, the values of a list are bound by the type of the first one. -/
theorem bindable_by_first
    (hbindable : ∀ p ∈ membershipParameters ⟨m.table, idColumn⟩ vs, p.Bindable) (hnull : .null ∉ vs)
    {v : Value} (hv : v ∈ vs) :
    Parameter.Bindable ⟨Codec.ofValue .int (vs.headD .null), v⟩ := by
  refine hbindable _ (List.mem_map.2 ⟨v, hv, ?_⟩)
  exact congrArg (Parameter.mk · v) (if_neg (mt List.contains_iff_mem.1 hnull))

/-- A list that has a null, or does not begin with a float, selects the live rows that its values
find one by one. -/
theorem lists_iff_finds
    (hbindable : ∀ p ∈ membershipParameters ⟨m.table, idColumn⟩ vs, p.Bindable)
    (hhead : ∀ x, vs.head? = some (.float x) → .null ∈ vs) (row : Row) : m.lists vs row = true ↔
      m.isLive row = true ∧ ∃ v ∈ vs, m.Finds idColumn v (.integer row.id) := by
  rw [lists_iff]
  refine and_congr_right fun _ => exists_congr fun v => and_congr_right fun hv => ?_
  rw [finds_id_iff]
  by_cases hnull : .null ∈ vs
  · rw [if_pos (List.contains_iff_mem.2 hnull)]
  · have hfirst (x : Number.Double) : vs.headD .null ≠ .float x := by
      intro h
      refine hnull (hhead x ?_)
      cases vs with
      | nil => cases h
      | cons w ws => exact congrArg some h
    rw [if_neg (mt List.contains_iff_mem.1 hnull), compareHolds_id_codec hfirst
      (fun h => hnull (h ▸ hv)) (bindable_by_first hbindable hnull hv)]

/-- Where a list of values begins with a float, all of them are read as floats. -/
theorem lists_iff_floats
    (hbindable : ∀ p ∈ membershipParameters ⟨m.table, idColumn⟩ vs, p.Bindable)
    {x : Number.Double} (hhead : vs.head? = some (.float x)) (hnull : .null ∉ vs) (row : Row) :
    m.lists vs row = true ↔ m.isLive row = true ∧
      ∃ v ∈ vs, ∃ y, encodeNumber v = .ok (.float y) ∧ y.compareInt? row.id = some .eq := by
  rw [lists_iff]
  refine and_congr_right fun _ => exists_congr fun v => and_congr_right fun hv => ?_
  have hcodec : Codec.ofValue .int (vs.headD .null) = .number := by
    cases vs with
    | nil => cases hhead
    | cons w ws =>
      cases hhead
      rfl
  have hbound := bindable_by_first hbindable hnull hv
  rw [hcodec] at hbound
  rw [if_neg (mt List.contains_iff_mem.1 hnull), hcodec]
  exact compareHolds_id_number (fun h => hnull (h ▸ hv)) hbound

end Model

namespace Resource
variable {s : Schema} {r : Resource} {m : Model} {now : Moment} {st st' : Store} {se : Session}
  {vs : List Value} {es : List (String × Value)} {n : Nat}

/-- The query for the records that a bulk update is about. -/
def bulkQuery (r : Resource) (vs : List Value) : Query :=
  { model := r.model
    conditions := [.among ⟨r.model.table, idColumn⟩ vs] ++ notTrashed r.model }

/-- What a bulk write comes to: the same cells for all rows that it selects, once all is bound. -/
theorem bulkWrite_cells {ps : List Predicate} {as : Assigned}
    (h : bulkWrite s st { model := m, conditions := ps } as = .ok (st', n)) :
    ∃ cells, as.encode.bind Assigned.cells = .ok cells ∧
      st.change s m ((st.rows m).filter (Predicate.allHold st · ps)) cells = .ok st' ∧
      n = (st.rows m).countP (Predicate.allHold st · ps) ∧
      ∀ p ∈ Predicate.allParameters ps, p.Bindable := by
  obtain ⟨cells, hcells, h⟩ := except_bind_ok.1 h
  obtain ⟨written, hwritten, h⟩ := except_bind_ok.1 h
  cases h
  obtain ⟨front, back, hfront, hback, rfl⟩ := bindAll_append_ok (mapError_eq_ok.1 hcells)
  rw [Assigned.kept_append hfront] at hwritten
  exact ⟨_, Assigned.cells_of_bound hfront, mapError_eq_ok.1 hwritten,
    List.countP_eq_length_filter.symm, bindAll_runs.1 ⟨back, hback⟩⟩

theorem suits_givenValues (hs : s.Stamped) (hm : m ∈ s.models) (now : Moment) (hes : SparesId es) :
    (m.updateValues now (m.givenValues es)).Suits m :=
  Model.suits_of_assigned (hs.names m hm) (hs.stamps m hm)
    (fun _ ha => (Model.mem_givenValues.1 ha).1) (Model.spares_givenValues hes)

/-- A bulk write gives the values to the rows that it selects, and counts them. -/
theorem bulkWrite_ok (hs : s.Stamped) (hm : m ∈ s.models) (hst : st.Complete s) (hes : SparesId es)
    {ps : List Predicate}
    (h : bulkWrite s st { model := m, conditions := ps } (m.updateValues now (m.givenValues es)) =
      .ok (st', n)) :
    st.Revised m now es (Predicate.allHold st · ps) st' ∧
      n = (st.rows m).countP (Predicate.allHold st · ps) ∧
      ∀ p ∈ Predicate.allParameters ps, p.Bindable := by
  obtain ⟨cells, hcells, hchanged, hcount, hbindable⟩ := bulkWrite_cells h
  have has := suits_givenValues hs hm now hes
  obtain ⟨hrows, hframe⟩ := Store.change_rows (Store.spares_cells has hcells)
    (fun row hrow => (List.mem_filter.1 hrow).1)
    (((st.table m.table).nodup_ids).sublist (List.filter_sublist.map _)) hchanged
  refine ⟨⟨?_, hframe⟩, hcount, hbindable⟩
  rw [hrows, List.forall₂_map_right_iff, List.forall₂_same]
  intro row hrow
  by_cases hchosen : Predicate.allHold st row ps = true
  · rw [if_pos hchosen, if_pos (List.mem_filter.2 ⟨hrow, hchosen⟩)]
    exact Model.revises_of_rewrites (hs.names m hm) (hs.stamps m hm) hes (hst m hm row hrow)
      (has.rewrites hcells row)
  · rw [if_neg hchosen]
    exact if_neg fun hin : row ∈ (st.rows m).filter (Predicate.allHold st · ps) =>
      hchosen (List.mem_filter.1 hin).2

theorem result_membershipPredicate {f : Field} {chosen : List Predicate}
    (h : (Filter.membershipPredicate f vs).outcome = .ok chosen) : chosen = [.among f vs] := by
  unfold Filter.membershipPredicate at h
  split at h
  · cases h
  · exact (Except.ok.inj h).symm

theorem leaves_commitOn (hm : m ∈ s.models) (st' : Store) : Leaves (Session.Ready st now)
    (Action.commitOn s st') (fun _ => Session.Ready st' now) fun e _ => ∀ p, e ≠ .problem p := by
  rintro se ⟨-, rfl, hstaged, hactive⟩
  have hflush : ({ se with store := st' } : Session).staged.flush s se.now st' se.records =
      .ok ⟨st', []⟩ := by
    change se.staged.flush s se.now st' se.records = _
    rw [hstaged]
    exact Staging.flush_nothing hm ..
  have hcommit := Action.commit_of_ok (s := s) { se with store := st' } hactive hflush
  unfold Action.commitOn
  rw [hcommit]
  exact Session.ready_committed _ _

/-- What a bulk update writes is committed; a failure is no problem of the request. -/
theorem leaves_changeAll (hm : r.model ∈ r.schema.models) (vs : List Value)
    (es : List (String × Value)) : Leaves (Session.Ready st now) (r.changeAll vs es)
    (fun n se => ∃ st', bulkWrite r.schema st (r.bulkQuery vs)
      (r.model.updateValues now (r.model.givenValues es)) = .ok (st', n) ∧ se.Ready st' now)
    fun e _ => ∀ p, e ≠ .problem p := by
  unfold changeAll
  refine Leaves.bind (Q := fun chosen se => Session.Ready st now se ∧
    chosen = [.among ⟨r.model.table, idColumn⟩ vs]) ?_ fun chosen => .given ?_
  · intro se h
    cases hchosen : (Filter.membershipPredicate ⟨r.model.table, idColumn⟩ vs).outcome with
    | error e =>
      rw [Action.result_ofReported_error hchosen]
      exact nofun
    | ok chosen =>
      rw [Action.result_ofReported_ok.2 hchosen]
      exact ⟨h, result_membershipPredicate hchosen⟩
  rintro rfl
  refine Leaves.bind (Q := fun here se => Session.Ready st now se ∧ Session.Ready st now here)
    (fun se h => ⟨h, h⟩) fun here => .given ?_
  rintro ⟨rfl, rfl, -, hactive⟩
  dsimp only
  rw [if_neg (by rw [hactive]; decide)]
  refine Leaves.bind (Q := fun written se => Session.Ready here.store here.now se ∧
    bulkWrite r.schema here.store (r.bulkQuery vs)
      (r.model.updateValues here.now (r.model.givenValues es)) = .ok written) ?_
    fun written => .given fun hwritten => ?_
  · refine .ofExcept (fun written hwritten se h => ⟨h, mapError_eq_ok.1 hwritten⟩) ?_
    intro e he se h p
    obtain ⟨e', -, rfl⟩ := mapError_eq_error.1 he
    exact nofun
  · exact (leaves_commitOn hm written.1).bind fun _ => .pure fun se h => ⟨_, hwritten, h⟩

theorem columnValues_eq_nil_iff :
    r.model.columnValues es = [] ↔ ∀ e ∈ es, r.model.column? e.1 = none := by
  unfold Model.columnValues
  rw [List.filter_eq_nil_iff]
  unfold Model.hasColumn
  simp

theorem givenValues_columnValues (m : Model) (es : List (String × Value)) :
    m.givenValues (m.columnValues es) = m.givenValues es := by
  unfold Model.givenValues
  refine List.filterMap_congr fun c hc => ?_
  rw [Model.lookup?_columnValues hc]

/-- The problem of a bulk update that names no column. -/
def nothingToUpdate (r : Resource) (es : List (String × Value)) : Problem :=
  (Problem.invalid ("No updatable " ++ r.model.name ++ " columns given")
    (sortedNames (es.map (·.1)))).1

/-- How a bulk update ends: it writes in bulk, it has no ids to write to, it is refused where no
column is named, or it fails on its own account. -/
theorem leaves_multiUpdate (hm : r.model ∈ r.schema.models) (hse : se.Ready se.store se.now)
    {ids attributes : Value} (hids : ids.toItems = .ok vs)
    (hattributes : attributes.toEntries = .ok es) : Leaves (Eq se) (r.multiUpdate ids attributes)
      (fun n se' => r.model.columnValues es ≠ [] ∧ (vs = [] ∧ n = 0 ∧ se' = se ∨
        ∃ st', bulkWrite r.schema se.store (r.bulkQuery vs)
          (r.model.updateValues se.now (r.model.givenValues es)) = .ok (st', n) ∧
          se'.Ready st' se.now))
      fun e se' => if r.model.columnValues es = [] then
        se' = se ∧ e = .problem (r.nothingToUpdate es) else ∀ p, e ≠ .problem p := by
  unfold multiUpdate
  rw [hids, hattributes]
  refine Leaves.bind (Q := fun ws se' => se = se' ∧ vs = ws) (fun _ h => ⟨h, rfl⟩) fun _ =>
    .given ?_
  rintro rfl
  refine Leaves.bind (Q := fun fs se' => se = se' ∧ es = fs) (fun _ h => ⟨h, rfl⟩) fun _ =>
    .given ?_
  rintro rfl
  dsimp only
  by_cases hnone : r.model.columnValues es = []
  · rw [if_pos (List.isEmpty_iff.2 hnone)]
    simp only [if_pos hnone]
    exact fun _ h => ⟨h.symm, rfl⟩
  rw [if_neg (mt List.isEmpty_iff.1 hnone)]
  simp only [if_neg hnone]
  split
  · rename_i hempty
    exact .pure fun _ h => ⟨hnone, .inl ⟨List.isEmpty_iff.1 hempty, rfl, h.symm⟩⟩
  · have hready : ∀ se', se = se' → Session.Ready se.store se.now se' := fun _ h => h ▸ hse
    have hchanges := (leaves_changeAll hm vs (r.model.columnValues es)).weaken hready
    rw [givenValues_columnValues] at hchanges
    refine Leaves.bind hchanges fun count => ?_
    exact Leaves.bind (.entry _) fun _ => .pure fun _ h => ⟨hnone, .inr h⟩

/-- A bulk update has exactly one effect. If no attribute names a column it is refused, and nothing
changes. Otherwise, if it succeeds, each row that the list of ids selects holds the given value in
every column that is named, is stamped unless it was given the stamp, and is else as before; all
other rows of all tables are unchanged, and the rows that were selected are counted. The list
selects the live rows that its values find one by one, unless it begins with a float and has no
null: then every value of it is read as a float first. -/
theorem multiUpdate_exact (hs : r.schema.Stamped) (hm : r.model ∈ r.schema.models)
    (hclean : se.isClean = true) (hst : se.store.Complete r.schema) {ids attributes : Value}
    (hids : ids.toItems = .ok vs) (hattributes : attributes.toEntries = .ok es)
    (hes : SparesId es) :
    let o := r.multiUpdate ids attributes se
    ((∀ e ∈ es, r.model.column? e.1 = none) →
      o.result = .error (.problem (r.nothingToUpdate es)) ∧ o.session = se) ∧
    (∀ p, o.result = .error (.problem p) → ∀ e ∈ es, r.model.column? e.1 = none) ∧
    ∀ n, o.result = .ok n →
      se.store.Revised r.model se.now es (r.model.lists vs) o.session.store ∧
      n = (se.store.rows r.model).countP (r.model.lists vs) ∧
      ((∀ x, vs.head? = some (.float x) → .null ∈ vs) → ∀ row, r.model.lists vs row = true ↔
        r.model.isLive row = true ∧ ∃ v ∈ vs, r.model.Finds idColumn v (.integer row.id)) ∧
      ∀ x, vs.head? = some (.float x) → .null ∉ vs → ∀ row, r.model.lists vs row = true ↔
        r.model.isLive row = true ∧
          ∃ v ∈ vs, ∃ y, encodeNumber v = .ok (.float y) ∧ y.compareInt? row.id = some .eq := by
  intro o
  have hleaves := leaves_multiUpdate hm (Session.ready_of_isClean hclean) hids hattributes rfl
  rw [← columnValues_eq_nil_iff]
  refine ⟨fun hnone => ?_, fun p hp => ?_, fun n hn => ?_⟩
  · cases hr : o.result with
    | ok n =>
      rw [hr] at hleaves
      exact absurd hnone hleaves.1
    | error e =>
      rw [hr] at hleaves
      simp only [if_pos hnone] at hleaves
      exact ⟨by rw [hleaves.2], hleaves.1⟩
  · rw [hp] at hleaves
    by_contra hsome
    simp only [if_neg hsome] at hleaves
    exact hleaves p rfl
  · rw [hn] at hleaves
    obtain ⟨-, ⟨rfl, rfl, hsame⟩ | ⟨st', hwritten, hready⟩⟩ := hleaves
    · have hcount : (se.store.rows r.model).countP (r.model.lists []) = 0 :=
        List.countP_eq_zero.2 fun row _ => by rw [Model.lists_nil]; decide
      have hunbound : ∀ p ∈ membershipParameters ⟨r.model.table, idColumn⟩ [], p.Bindable :=
        List.forall_mem_nil _
      rw [hsame]
      refine ⟨Store.revised_of_none (Model.lists_nil r.model) _ _ _, hcount.symm,
        Model.lists_iff_finds hunbound, fun x hhead => ?_⟩
      cases hhead
    · obtain ⟨hrevised, hcount, hbindable⟩ := bulkWrite_ok hs hm hst hes hwritten
      simp only [Model.allHold_listing] at hrevised hcount
      replace hbindable : ∀ p ∈ membershipParameters ⟨r.model.table, idColumn⟩ vs, p.Bindable :=
        fun p hp => hbindable p (List.mem_append_left _ hp)
      exact ⟨hready.store_eq ▸ hrevised, hcount, Model.lists_iff_finds hbindable,
        fun x hhead hnull => Model.lists_iff_floats hbindable hhead hnull⟩

/-- A category whose id no float has: beside a float, its own id does not select it. -/
theorem multiUpdate_exact_rounded :
    let r := Library.resource Library.category
    let far := Library.rowOf Library.category (9007199254740993, [.text "far", .null])
    let st := Library.catalogue.withRow Library.category far
    let vs : List Value := [.float (Number.Double.ofInt 0), .int 9007199254740993]
    let o := r.multiUpdate (.list vs) (.object [("name", .text "near")]) (Library.visit st)
    o.result = .ok 0 ∧ far ∈ o.session.store.rows Library.category ∧
      Library.category.isLive far = true ∧
      Library.category.Finds idColumn (.int 9007199254740993) (.integer far.id) ∧
      Library.category.lists vs far = false := by
  intro r far st vs o
  have hresult : o.result = .ok 0 := except_of_toOption (by decide +kernel)
  have hcomplete : st.Complete Library.schema := by unfold Store.Complete; decide +kernel
  have hfar : far ∈ st.rows Library.category := Store.mem_rows_withRow.2 (.inl rfl)
  have hes : SparesId [("name", Value.text "near")] := by unfold SparesId; decide
  have hs : r.schema.Stamped := Library.stamped
  have hm : r.model ∈ r.schema.models := by decide
  have hids : (Value.list vs).toItems = .ok vs := rfl
  have hattributes : (Value.object [("name", .text "near")]).toEntries =
    .ok [("name", .text "near")] := rfl
  have hclean : (Library.visit st).isClean = true := rfl
  obtain ⟨-, -, hok⟩ := multiUpdate_exact hs hm hclean hcomplete hids hattributes hes
  obtain ⟨-, hcount, -⟩ := hok 0 hresult
  -- No row was selected, so the far one neither.
  have hunlisted : Library.category.lists vs far = false :=
    Bool.eq_false_iff.2 (List.countP_eq_zero.1 hcount.symm far hfar)
  refine ⟨hresult, by decide +kernel, rfl, ?_, hunlisted⟩
  exact Model.finds_id_iff.2 (by decide +kernel)

end Resource

end Records
