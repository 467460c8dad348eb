import Records.Proofs.Record.Reference

/-!
What a write adds to a store where it changes and removes nothing. Each new record becomes one row,
under an id that no row of its table has; its columns keep what the record was given and what the
links come to by the round in which it is written.
-/
namespace Records

open Records.Calendar (Moment)

/-- A row that was added, and the number of the new record that it stands for. -/
structure Addition where
  model : Model
  number : Nat
  row : Row

/-- What is added in the course of a write. -/
structure Written.Gains (w w' : Written) (added : List Addition) : Prop where
  ids_eq : w'.ids = w.ids ++ added.map fun a => (a.number, a.row.id)
  rows_perm : ∀ m : Model, (w'.store.rows m).Perm
    (w.store.rows m ++ (added.filter (·.model.table = m.table)).map (·.row))

/-- Each column is assigned once, and the id an integer. -/
structure Assigned.Proper (as : Assigned) : Prop where
  names : (as.map (·.1.name)).Nodup
  id_int : ∀ a ∈ as, a.1.name = idColumn.name → a.1.kind = .int ∧ ∃ n, a.2 = .int n

/-- A row keeps what is assigned to its columns. -/
structure Assigned.MadeOf (as : Assigned) (row : Row) : Prop where
  keeps : ∀ a ∈ as, a.1.name ≠ idColumn.name → a.1.Keeps a.2 (row.cell a.1.name)
  id_eq : ∀ a ∈ as, a.1.name = idColumn.name → a.2 = .int row.id

theorem Table.perm_insert {t : Table} {row : Row} (h : ∀ r ∈ t.rows, r.id ≠ row.id) :
    (t.insert row).rows.Perm (t.rows ++ [row]) := by
  have hperm (rs : List Row) (h : ∀ r ∈ rs, r.id ≠ row.id) :
      (insertRow row rs).Perm (row :: rs) := by
    induction rs with
    | nil => exact .refl _
    | cons r rs ih =>
      obtain ⟨hr, hrs⟩ := List.forall_mem_cons.1 h
      simp only [insertRow, hr, if_false]
      split
      · exact .refl _
      · exact ((ih hrs).cons r).trans (.swap ..)
  exact (hperm t.rows h).trans (List.perm_append_singleton ..).symm

namespace Written
variable {m : Model} {w w₁ w' : Written} {added more : List Addition}

theorem Gains.refl (w : Written) : w.Gains w [] := ⟨by simp, fun m => by simp⟩

theorem Gains.trans (h : w.Gains w₁ added) (h' : w₁.Gains w' more) :
    w.Gains w' (added ++ more) where
  ids_eq := by rw [h'.ids_eq, h.ids_eq, List.map_append, List.append_assoc]
  rows_perm m := by
    rw [List.filter_append, List.map_append, ← List.append_assoc]
    exact (h'.rows_perm m).trans ((h.rows_perm m).append_right _)

/-- A record that was known before has the same id afterwards. -/
theorem Gains.id?_eq (h : w.Gains w' added) {ref : Ref} {id : Int} (hid : w.id? ref = some id) :
    w'.id? ref = some id := by
  cases ref with
  | stored name n => exact hid
  | draft n =>
    unfold id? at hid ⊢
    dsimp only at hid ⊢
    rw [h.ids_eq, List.find?_append]
    obtain ⟨e, he, rfl⟩ := Option.map_eq_some_iff.1 hid
    rw [he]
    rfl

theorem Gains.mem_rows (h : w.Gains w' added) {a : Addition} (ha : a ∈ added) :
    a.row ∈ w'.store.rows a.model := by
  refine (h.rows_perm a.model).mem_iff.2 (List.mem_append_right _ (List.mem_map_of_mem ?_))
  exact List.mem_filter.2 ⟨ha, decide_eq_true rfl⟩

/-- Adds the row of encoded values. -/
def place (m : Model) (w : Written) (e : Nat × Assigned) : Except WriteError Written := do
  let cells ← e.2.cells
  let given := (cells.find? (·.1 == idColumn.name)).map (·.2)
  let (store, id) ←
    (w.store.addRow m (given.getD .null) (cells.filter (·.1 != idColumn.name))).mapError .constraint
  return ⟨store, if given = some .null then w.ids else w.ids ++ [(e.1, id)]⟩

theorem add_ok {group : List (Nat × Assigned)} (h : w.add m group = .ok w') :
    ∃ encoded : List (Nat × Assigned),
      group.mapM (fun e => do return (e.1, ← e.2.encode)) = .ok encoded ∧
        encoded.foldlM (place m) w = .ok w' := except_bind_ok.1 h

end Written

theorem Store.addRow_id {m : Model} {st st' : Store} {id n : Int} {cells : List (String × Cell)}
    (h : st.addRow m (.integer id) cells = .ok (st', n)) : n = id := by
  unfold addRow at h
  dsimp only at h
  rw [if_neg nofun] at h
  obtain ⟨given, hgiven, h⟩ := except_bind_ok.1 h
  obtain ⟨⟨⟩, -, h⟩ := except_bind_ok.1 h
  cases hgiven
  split at h
  · cases h
    rfl
  · cases h

section Place
variable {m : Model} {as : Assigned} {cells : List (String × Cell)}

/-- Among some of the cells, that of a column is found under its name. -/
theorem Assigned.find?_cells (hnames : (as.map (·.1.name)).Nodup)
    (hcells : as.encode.bind Assigned.cells = .ok cells) {a : Column × Value} (ha : a ∈ as)
    (es : List (String × Cell)) (hes : ∀ e ∈ es, e ∈ cells)
    (hkept : ∀ e ∈ cells, e.1 = a.1.name → e ∈ es) :
    ∃ cell, es.find? (·.1 == a.1.name) = some (a.1.name, cell) ∧ a.1.Keeps a.2 cell := by
  obtain ⟨e, he, hname, -⟩ := (keeps_cells hcells).1 a ha
  have hsome : (es.find? (·.1 == a.1.name)).isSome :=
    List.find?_isSome.2 ⟨e, hkept e he hname, beq_iff_eq.2 hname⟩
  obtain ⟨⟨key, cell⟩, he'⟩ := Option.isSome_iff_exists.1 hsome
  obtain rfl : key = a.1.name := by simpa using List.find?_some he'
  refine ⟨cell, he', ?_⟩
  obtain ⟨b, hb, hbname, hkeeps⟩ := (keeps_cells hcells).2 _ (hes _ (List.mem_of_find?_eq_some he'))
  obtain rfl : b = a := List.inj_on_of_nodup_map hnames hb ha hbname.symm
  exact hkeeps

/-- The row of some cells, under the id among them if there is one. -/
theorem Assigned.Proper.madeOf (has : as.Proper)
    (hcells : as.encode.bind Assigned.cells = .ok cells) {id : Int}
    (hid : ∀ n, cells.find? (·.1 == idColumn.name) = some (idColumn.name, .integer n) → id = n) :
    as.MadeOf ⟨id, cells.filter (·.1 != idColumn.name)⟩ := by
  constructor
  · intro a ha hne
    obtain ⟨cell, hcell, hkeeps⟩ := find?_cells has.names hcells ha
      (cells.filter (·.1 != idColumn.name)) (fun e he => (List.mem_filter.1 he).1)
      fun e he hname => List.mem_filter.2 ⟨he, by rw [hname]; exact bne_iff_ne.2 hne⟩
    unfold Row.cell
    rw [if_neg hne, hcell]
    exact hkeeps
  · intro a ha hname
    obtain ⟨hkind, n, hvalue⟩ := has.id_int a ha hname
    obtain ⟨cell, hcell, hkeeps⟩ :=
      find?_cells has.names hcells ha cells (fun e he => he) fun e he _ => he
    rw [hvalue] at hkeeps
    rw [hname, hkeeps.of_int hkind] at hcell
    rw [hvalue, hid n hcell]

/-- Where an id is given, it is an integer and not a null. -/
theorem Assigned.Proper.id_ne_null (has : as.Proper)
    (hcells : as.encode.bind Assigned.cells = .ok cells) :
    (cells.find? (·.1 == idColumn.name)).map (·.2) ≠ some .null := by
  intro hnull
  obtain ⟨e, he, hcell⟩ := Option.map_eq_some_iff.1 hnull
  have hkey : e.1 = idColumn.name := by simpa using List.find?_some he
  obtain ⟨a, ha, hname, hkeeps⟩ := (keeps_cells hcells).2 e (List.mem_of_find?_eq_some he)
  obtain ⟨hkind, k, hvalue⟩ := has.id_int a ha (hname.symm.trans hkey)
  rw [hvalue] at hkeeps
  rw [hkeeps.of_int hkind] at hcell
  cases hcell

theorem Written.place_gains (hm : idColumn ∈ m.columns) (has : as.Proper) {forms : Assigned}
    (hforms : as.encode = .ok forms) {w w' : Written} {n : Nat}
    (h : w.place m (n, forms) = .ok w') : ∃ row, as.MadeOf row ∧ w.Gains w' [⟨m, n, row⟩] := by
  obtain ⟨cells, hcells, h⟩ := except_bind_ok.1 h
  dsimp only at h
  obtain ⟨⟨st, id⟩, hadded, h⟩ := except_bind_ok.1 h
  replace hadded := mapError_eq_ok.1 hadded
  cases h
  have hall : as.encode.bind Assigned.cells = .ok cells :=
    except_bind_ok.2 ⟨forms, hforms, hcells⟩
  obtain ⟨hcheck, hst⟩ := Store.addRow_ok hadded
  have hfresh : ∀ r ∈ (w.store.table m.table).rows, r.id ≠ id :=
    fun r hr => Row.ne_of_check hm hcheck hr
  refine ⟨⟨id, cells.filter (·.1 != idColumn.name)⟩, has.madeOf hall fun k hk => ?_, ?_,
    fun m' => ?_⟩
  · rw [hk] at hadded
    exact Store.addRow_id hadded
  · dsimp only
    rw [if_neg (has.id_ne_null hall)]
    rfl
  · dsimp only
    rw [hst]
    by_cases htable : m'.table = m.table
    · unfold Store.rows
      rw [htable, Store.table_setTable_self]
      simpa using Table.perm_insert hfresh
    · rw [Store.rows_setTable_of_ne htable]
      simp [Ne.symm htable]

/-- A new record is written as a row. -/
structure Addition.Writes (a : Addition) (m : Model) (e : Nat × Assigned) : Prop where
  model_eq : a.model = m
  number_eq : a.number = e.1
  madeOf : e.2.MadeOf a.row

namespace Written
variable {w w' : Written}

theorem add_gains (hm : idColumn ∈ m.columns) {group : List (Nat × Assigned)}
    (hgroup : ∀ e ∈ group, e.2.Proper) (h : w.add m group = .ok w') :
    ∃ added, w.Gains w' added ∧ List.Forall₂ (fun e a => Addition.Writes a m e) group added := by
  obtain ⟨encoded, hencoded, hplaced⟩ := add_ok h
  clear h
  induction group generalizing w encoded with
  | nil =>
    cases hencoded
    cases hplaced
    exact ⟨[], .refl _, .nil⟩
  | cons e group ih =>
    obtain ⟨hfirst, hrest⟩ := List.forall_mem_cons.1 hgroup
    obtain ⟨⟨n, forms⟩, later, hforms, hlater, rfl⟩ := mapM_cons_ok.1 hencoded
    obtain ⟨rfl, hforms⟩ := encode_pair_ok hforms
    rw [List.foldlM_cons] at hplaced
    obtain ⟨next, hnext, hplaced⟩ := except_bind_ok.1 hplaced
    obtain ⟨row, hrow, hgains⟩ := place_gains hm hfirst hforms hnext
    obtain ⟨added, hmore, hadded⟩ := ih hrest later hlater hplaced
    exact ⟨_, hgains.trans hmore, .cons ⟨rfl, rfl, hrow⟩ hadded⟩

theorem adds_gains {κ : Type} (hm : idColumn ∈ m.columns)
    {groups : List (List (κ × Nat × Assigned))} (hgroups : ∀ e ∈ groups.flatten, e.2.2.Proper)
    (h : groups.foldlM (fun w group => w.add m (group.map (·.2))) w = .ok w') :
    ∃ added, w.Gains w' added ∧
      List.Forall₂ (fun e a => Addition.Writes a m e.2) groups.flatten added := by
  induction groups generalizing w with
  | nil =>
    cases h
    exact ⟨[], .refl _, .nil⟩
  | cons group groups ih =>
    rw [List.flatten_cons] at hgroups ⊢
    obtain ⟨hfirst, hrest⟩ := List.forall_mem_append.1 hgroups
    rw [List.foldlM_cons] at h
    obtain ⟨next, hnext, h⟩ := except_bind_ok.1 h
    obtain ⟨added, hgains, hadded⟩ := add_gains hm (List.forall_mem_map.2 hfirst) hnext
    obtain ⟨more, hmore, hlater⟩ := ih hrest h
    exact ⟨_, hgains.trans hmore, List.rel_append (List.forall₂_map_left_iff.1 hadded) hlater⟩

end Written

end Place

namespace Model
variable {m : Model} {now : Moment} {values : List (String × Value)}

theorem mem_initialValues {a : Column × Value} : a ∈ m.initialValues now values ↔
    a.1 ∈ m.columns ∧ (a.1.name ≠ idColumn.name ∨
      (Value.lookup? a.1.name values).getD .null ≠ .null) ∧
        a.2 = a.1.initial now (Value.lookup? a.1.name values) := by
  unfold initialValues
  rw [List.mem_map]
  constructor
  · rintro ⟨c, hc, rfl⟩
    obtain ⟨hc, hgiven⟩ := List.mem_filter.1 hc
    exact ⟨hc, by simpa using hgiven, rfl⟩
  · rintro ⟨hc, hgiven, hvalue⟩
    exact ⟨a.1, List.mem_filter.2 ⟨hc, by simpa using hgiven⟩, Prod.ext rfl hvalue.symm⟩

theorem proper_initialValues (hnames : (m.columns.map (·.name)).Nodup)
    (hid : ∀ c ∈ m.columns, c.name = idColumn.name → c = idColumn)
    (hvalues : ∀ v, Value.lookup? idColumn.name values = some v → v ≠ .null → ∃ n, v = .int n) :
    (m.initialValues now values).Proper := by
  constructor
  · unfold initialValues
    rw [List.map_map]
    exact hnames.sublist (List.filter_sublist.map _)
  · intro a ha hname
    obtain ⟨hc, hgiven, hvalue⟩ := mem_initialValues.1 ha
    have hcolumn := hid a.1 hc hname
    rw [hcolumn] at hgiven hvalue ⊢
    cases hv : Value.lookup? idColumn.name values with
    | none =>
      rw [hv] at hgiven
      exact absurd rfl (hgiven.resolve_left fun h => h rfl)
    | some v =>
      rw [hv] at hgiven hvalue
      obtain ⟨n, rfl⟩ := hvalues v hv (hgiven.resolve_left fun h => h rfl)
      exact ⟨rfl, n, hvalue⟩

end Model

end Records
