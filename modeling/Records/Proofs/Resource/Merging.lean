import Records.Proofs.Resource.Atomic
import Records.Proofs.Resource.Isolated
import Records.Proofs.Staging.Edits

/-!
What an update stages, as a function of the store and the payload. The payload is merged into the
record first; then its nested records are staged one after another, each looked up by the keys that
the record is about to have by then. The first that cannot be staged decides how the update ends.
-/
namespace Records

open Records.Action
open Records.Filter (Predicate)

/-- A failure that leaves the tables as they are, and nothing staged if it is a problem. -/
def Session.Halts (se : Session) (e : Failure) (se' : Session) : Prop :=
  se'.store = se.store ∧ se.FailsUndone e se'

/-- The nested records of a payload in the order in which they are staged, each with the relation
that it belongs under. -/
def Resource.nestedItems (r : Resource) :
    List (String × Value) → List (Handle × List (String × Value))
  | [] => []
  | (key, v) :: es =>
    match r.model.hasColumn key, v.nestedRecords? with
    | false, some records =>
      match r.schema.resolve? r.model key with
      | some h =>
        (if h.relation.link.isMany then records else records.getLast?.toList).map
          (fun es => (h, es)) ++ r.nestedItems es
      | none => r.nestedItems es
    | _, _ => r.nestedItems es

theorem Resource.leaves_nestedItems {r : Resource} {P : Session → Prop}
    {E : Failure → Session → Prop} (es : List (String × Value)) :
    Leaves P (r.nested es) (fun ns se => P se ∧
      ns.flatMap (fun n => n.records.map fun es => (n.handle, es)) = r.nestedItems es) E := by
  induction es with
  | nil => exact .pure fun se hP => ⟨hP, rfl⟩
  | cons e es ih =>
    obtain ⟨key, v⟩ := e
    cases hkey : r.model.hasColumn key with
    | true => simpa only [nested, nestedItems, hkey] using ih
    | false =>
      cases hrecords : v.nestedRecords? with
      | none => simpa only [nested, nestedItems, hkey, hrecords] using ih
      | some records =>
        cases hrelation : r.schema.resolve? r.model key with
        | none =>
          simp only [nested, nestedItems, hkey, hrecords, hrelation]
          exact Leaves.bind (.entry _) fun _ => ih
        | some h =>
          simp only [nested, nestedItems, hkey, hrecords, hrelation]
          refine ih.bind fun ns => .pure fun se hns => ⟨hns.1, ?_⟩
          rw [List.flatMap_cons, hns.2]

theorem Resource.nests_of_mem_nestedItems {r : Resource} {payload : Value}
    {es : List (String × Value)} (hes : ∀ e ∈ es, e ∈ payload.entries)
    {item : Handle × List (String × Value)} (hitem : item ∈ r.nestedItems es) :
    r.Nests payload item.1 item.2 := by
  induction es with
  | nil => cases hitem
  | cons e es ih =>
    obtain ⟨key, v⟩ := e
    obtain ⟨hentry, hrest⟩ := List.forall_mem_cons.1 hes
    unfold Resource.nestedItems at hitem
    split at hitem
    · rename_i records hkey hrecords
      split at hitem
      · rename_i h hrelation
        rcases List.mem_append.1 hitem with hitem | hitem
        · obtain ⟨record, hrecord, rfl⟩ := List.mem_map.1 hitem
          refine ⟨key, v, records, hentry, hkey, hrelation, hrecords, ?_⟩
          split at hrecord
          · exact hrecord
          · exact List.mem_of_getLast? (Option.mem_toList.1 hrecord)
        · exact ih hrest hitem
      · exact ih hrest hitem
    · exact ih hrest hitem

namespace Update

/-- The nested records of the payload in the order in which they are staged. -/
def items (u : Update) : List (Handle × List (String × Value)) :=
  u.resource.nestedItems u.payload.entries

/-- What a column of the record holds in the store. -/
def stored (u : Update) (column : String) : Value :=
  match (u.store.table u.resource.model.table).find? u.id with
  | some row => (Node.ofRow u.resource.model [] row).value column
  | none => .null

/-- What a column of the record is going to hold. -/
def pending (u : Update) (g : Staging) (column : String) : Value :=
  (Value.lookup? column (g.valuesOf u.resource.model.name u.id)).getD (u.stored column)

/-- A relation of the record leads to a row, if the columns of the record have these values. -/
def Links (u : Update) (column : String → Value) (h : Handle) (row : Row) : Prop :=
  match h.relation.link with
  | .parent fk =>
    Predicate.holds u.store row (.compare ⟨h.target.table, idColumn⟩ .eq (column fk))
  | link => ∀ c, h.target.column? link.foreignKey = some c →
    Predicate.holds u.store row (.compare ⟨h.target.table, c⟩ .eq (.int u.id))

/-- The conditions under which a relation of the record leads to a row. -/
def conditions (u : Update) (column : String → Value) (h : Handle) : List Predicate :=
  match h.relation.link with
  | .parent fk => [.compare ⟨h.target.table, idColumn⟩ .eq (column fk)]
  | link => (h.target.column? link.foreignKey).toList.map fun c =>
    .compare ⟨h.target.table, c⟩ .eq (.int u.id)

theorem links_iff {u : Update} {column : String → Value} {h : Handle} {row : Row} :
    u.Links column h row ↔ ∀ p ∈ u.conditions column h, Predicate.holds u.store row p := by
  unfold Links conditions
  cases h.relation.link <;> simp

/-- The query for the record that an id names under a relation. -/
def lookup (u : Update) (g : Staging) (h : Handle) (id : Value) : Query :=
  (Query.base h.target true).when
    (exactly h.target idColumn id :: u.conditions (u.pending g) h)

/-- The problem of an id that names no record of a relation. -/
def stray (u : Update) (h : Handle) (id : Value) : Problem :=
  (Problem.relatedNotFound h.target.name id h.relation.name u.resource.model.name (.int u.id)).1

/-- The id that a nested record is given. -/
def givenId (es : List (String × Value)) : Value := (Value.lookup? idColumn.name es).getD .null

/-- The id of a nested record names a row of the model that its relation leads to. -/
def Denotes (u : Update) (item : Handle × List (String × Value)) (row : Row) : Prop :=
  row ∈ u.store.rows item.1.target ∧
    Predicate.holds u.store row (exactly item.1.target idColumn (givenId item.2))

/-- Stages a nested record: a new one, or the one that its id names. -/
def stage (u : Update) (g : Staging) (item : Handle × List (String × Value)) :
    Except Failure Staging :=
  match givenId item.2 with
  | .null =>
    let draft := g.addDraft item.1.target (item.1.target.columnValues item.2)
    .ok (draft.1.attach item.1 u.holder draft.2)
  | id => do
    let rows ← ((u.lookup g item.1 id).run u.store).mapError Failure.store
    match rows.head? with
    | some row =>
      return (g.edit item.1.target row.id (item.1.target.fillValues item.2)).attach item.1 u.holder
        (.stored item.1.target.name row.id)
    | none => throw (.problem (u.stray item.1 id))

/-- The payload merged into the record, and nothing else staged. -/
def started (u : Update) : Staging :=
  Staging.empty.edit u.resource.model u.id (u.resource.model.fillValues u.payload.entries)

theorem items_of_unread {u : Update} {e : Failure} (h : u.payload.toEntries = .error e) :
    u.items = [] := by
  have hnone : u.payload.entries = [] := by
    unfold Value.entries
    split
    · rename_i es hpayload
      rw [hpayload] at h
      cases h
    · rfl
  rw [items, hnone]
  rfl

/-- All that the update stages. -/
def staging (u : Update) : Except Failure Staging := u.items.foldlM u.stage u.started

theorem staging_split {u : Update} {g : Staging} {item : Handle × List (String × Value)}
    {done rest : List (Handle × List (String × Value))} (hitems : u.items = done ++ item :: rest)
    (h : u.staging = .ok g) : ∃ g₁ g₂, done.foldlM u.stage u.started = .ok g₁ ∧
      u.stage g₁ item = .ok g₂ ∧ rest.foldlM u.stage g₂ = .ok g := by
  rw [staging, hitems, List.foldlM_append] at h
  obtain ⟨g₁, hdone, h⟩ := except_bind_ok.1 h
  rw [List.foldlM_cons] at h
  obtain ⟨g₂, hstage, hrest⟩ := except_bind_ok.1 h
  exact ⟨g₁, g₂, hdone, hstage, hrest⟩

end Update

theorem Node.value_ofRow (m : Model) (deferred : List String) (row : Row) (column : String) :
    (Node.ofRow m deferred row).value column = ((m.column? column).map row.value).getD .null := by
  unfold value ofRow Value.lookup? Model.column?
  dsimp only
  rw [List.find?_map, Option.map_map]
  rfl

namespace Graph
variable {s : Schema} {st : Store} {m : Model} {g : Graph} {ref : Ref} {rows : List Row}
  {Q : List (String × Value) → Prop}

theorem node?_holdAll_empty (deferred : List String) (hm : m ∈ s.models)
    (hrows : ∀ row ∈ rows, row ∈ st.rows m) {row : Row} (hrow : row ∈ rows) :
    ∃ n, (rows.foldl (hold s st m deferred) .empty).node? (.stored m.name row.id) = some n ∧
      n.values = (Node.ofRow m [] row).values := by
  have hheld : .stored m.name row.id ∈ (rows.foldl (hold s st m deferred) .empty).refs :=
    (mem_refs_holdAll _).2 (.inr ⟨row, hrow, rfl⟩)
  obtain ⟨n, hn⟩ := mem_refs_iff.1 hheld
  refine ⟨n, hn, ?_⟩
  have hvalues : (rows.foldl (hold s st m deferred) .empty).valuesOf s st
      (.stored m.name row.id) = empty.valuesOf s st (.stored m.name row.id) :=
    valuesOf_holdAll hm hrows _
  have hfound : (st.table m.table).find? row.id = some row := Table.find?_of_mem (hrows row hrow)
  unfold valuesOf at hvalues
  rw [hn] at hvalues
  simpa [empty, node?, Schema.model?_of_mem hm, hfound] using hvalues

theorem held_holdAll (deferred : List String) (hg : ∃ n, g.node? ref = some n ∧ Q n.values) :
    ∃ n, (rows.foldl (hold s st m deferred) g).node? ref = some n ∧ Q n.values := by
  induction rows generalizing g with
  | nil => exact hg
  | cons row rows ih =>
    obtain ⟨n, hn, hQ⟩ := hg
    refine ih ?_
    rw [node?_hold, hn]
    split
    · exact ⟨_, rfl, hQ⟩
    · exact ⟨n, rfl, hQ⟩

theorem held_revalueAll {es : Row → List (String × Value)}
    (hes : ∀ row ∈ rows, ref = .stored m.name row.id → ∀ vs, Q vs → Q (Value.merge vs (es row)))
    (hg : ∃ n, g.node? ref = some n ∧ Q n.values) :
    ∃ n, (g.revalueAll m es rows).node? ref = some n ∧ Q n.values := by
  induction rows generalizing g with
  | nil => exact hg
  | cons row rows ih =>
    obtain ⟨hfirst, hrest⟩ := List.forall_mem_cons.1 hes
    obtain ⟨n, hn, hQ⟩ := hg
    refine ih hrest ?_
    unfold revalue
    rw [node?_modify, hn, Option.map_some]
    refine ⟨_, rfl, ?_⟩
    split
    · rename_i hsame
      exact hfirst hsame n.values hQ
    · exact hQ

end Graph

namespace Update
variable {u : Update} {se se' : Session} {g : Staging}

/-- Values of the record as held: those of its row, wherever nothing else is staged. -/
def AsStored (u : Update) (g : Staging) (vs : List (String × Value)) : Prop :=
  ∀ column, Value.lookup? column (g.valuesOf u.resource.model.name u.id) = none →
    (Value.lookup? column vs).getD .null = u.stored column

/-- A session in which some of the update is staged, the record being held. -/
structure At (u : Update) (se : Session) (g : Staging) (se' : Session) : Prop where
  kept : se.Kept se'
  active : se'.inactive = false
  staged : se'.staged = g
  loads_nothing : ∀ ref name, se'.records.related? ref name = none
  held : ∃ n, se'.records.node? u.holder = some n ∧ u.AsStored g n.values
  spares : ∀ e ∈ g.edits, SparesId e.values

theorem At.pendingValue (ha : u.At se g se') (column : String) :
    Resource.pendingValue u.holder column se' = ⟨[], .ok (u.pending g column), se'⟩ := by
  obtain ⟨n, hn, hvalues⟩ := ha.held
  change Outcome.mk [] (.ok ((Value.lookup? column (se'.staged.valuesOf _ u.id)).getD
    (((se'.records.node? u.holder).map (·.value column)).getD .null))) se' = _
  rw [hn, ha.staged]
  unfold pending
  cases hv : Value.lookup? column (g.valuesOf u.resource.model.name u.id) with
  | some v => rfl
  | none =>
    change Outcome.mk [] (.ok ((Value.lookup? column n.values).getD .null)) se' = _
    rw [hvalues column hv]
    rfl

theorem At.hold (ha : u.At se g se') (m : Model) (rows : List Row) (deferred : List String) :
    u.At se g (Action.hold u.resource.schema m deferred rows se').session := by
  refine ⟨ha.kept, ha.active, ha.staged, fun ref name => ?_, ?_, ha.spares⟩
  · rw [records_hold_revalue, Graph.related?_revalueAll, Graph.related?_holdAll]
    exact ha.loads_nothing ref name
  · rw [records_hold_revalue]
    refine Graph.held_revalueAll ?_ (Graph.held_holdAll deferred ha.held)
    intro row _ hsame vs hvs column hcolumn
    obtain ⟨hname, hid⟩ := Ref.stored.inj hsame
    rw [ha.staged, ← hname, ← hid, Value.lookup?_merge_of_none hcolumn]
    exact hvs column hcolumn

theorem At.edit (ha : u.At se g se') (m : Model) (id : Int) {values : List (String × Value)}
    (hvalues : SparesId values) :
    u.At se (g.edit m id values) { se' with staged := se'.staged.edit m id values } := by
  obtain ⟨n, hn, hstored⟩ := ha.held
  refine ⟨ha.kept, ha.active, by rw [ha.staged], ha.loads_nothing, ⟨n, hn, ?_⟩, ?_⟩
  · exact fun column hcolumn => hstored column (Staging.lookup?_valuesOf_edit hcolumn)
  · have hedits : ∀ e ∈ (g.edit m id values).edits, True ∧ SparesId e.values :=
      Staging.forall_putEdit (K := fun _ _ => True) (Q := fun _ _ v => v.1 ≠ idColumn.name)
        (fun e he => ⟨trivial, ha.spares e he⟩) trivial hvalues
    exact fun e he => (hedits e he).2

theorem At.stage (ha : u.At se g se') {f : Staging → Staging} (hf : (f g).edits = g.edits) :
    u.At se (f g) { se' with staged := f se'.staged } := by
  obtain ⟨n, hn, hstored⟩ := ha.held
  refine ⟨ha.kept, ha.active, by rw [ha.staged], ha.loads_nothing, ⟨n, hn, ?_⟩, ?_⟩
  · intro column hcolumn
    refine hstored column ?_
    unfold Staging.valuesOf at hcolumn ⊢
    rwa [hf] at hcolumn
  · rw [hf]
    exact ha.spares

theorem lookup?_id_valuesOf (hg : ∀ e ∈ g.edits, SparesId e.values) (name : String) (id : Int) :
    Value.lookup? idColumn.name (g.valuesOf name id) = none := by
  unfold Staging.valuesOf
  cases hfound : g.edits.find? fun e => e.model.name = name ∧ e.id = id with
  | none => rfl
  | some e => exact (hg e (List.mem_of_find?_eq_some hfound)).lookup?


section Stored
variable (hs : u.resource.schema.Keyed) (hmodel : u.resource.model ∈ u.resource.schema.models)
include hs hmodel

theorem stored_id {row : Row}
    (hrow : (u.store.table u.resource.model.table).find? u.id = some row) :
    u.stored idColumn.name = .int u.id := by
  have hcolumn : u.resource.model.column? idColumn.name = some idColumn := by
    have hfound : (u.resource.model.column? idColumn.name).isSome :=
      List.find?_isSome.2 ⟨idColumn, hs.id_mem _ hmodel, beq_self_eq_true _⟩
    obtain ⟨c, hc⟩ := Option.isSome_iff_exists.1 hfound
    have hname : c.name = idColumn.name := by simpa using List.find?_some hc
    rw [hc, hs.id_only _ hmodel c (List.mem_of_find?_eq_some hc) hname]
  have hid : row.id = u.id := (Table.mem_of_find? hrow).2
  unfold stored
  rw [hrow]
  dsimp only
  rw [Node.value_ofRow, hcolumn]
  change (row.cell idColumn.name).decode .int = .int u.id
  rw [Row.cell_id, hid]
  rfl

/-- The id of the record is not among the values that are staged for it. -/
theorem pending_id {row : Row}
    (hrow : (u.store.table u.resource.model.table).find? u.id = some row)
    (hg : ∀ e ∈ g.edits, SparesId e.values) : u.pending g idColumn.name = .int u.id := by
  unfold pending
  rw [lookup?_id_valuesOf hg, stored_id hs hmodel hrow]
  rfl

end Stored

end Update

namespace Action
variable {γ G : Type}

/-- A loop whose steps follow a function of what the session stands for follows it to the end. -/
theorem Leaves.foldlM {I : G → Session → Prop} {f : γ → Action PUnit}
    {step : G → γ → Except Failure G} {F : Failure → Session → Prop}
    (hstep : ∀ g x, Leaves (I g) (f x) (fun _ se => ∃ g', step g x = .ok g' ∧ I g' se)
      fun e se => step g x = .error e ∧ F e se) (xs : List γ) (g : G) :
    Leaves (I g) (xs.forM f) (fun _ se => ∃ g', xs.foldlM step g = .ok g' ∧ I g' se)
      fun e se => xs.foldlM step g = .error e ∧ F e se := by
  -- A step that fails ends the loop and the walk alike.
  induction xs generalizing g with
  | nil => exact .pure fun se hI => ⟨g, rfl, hI⟩
  | cons x xs ih =>
    refine Leaves.bind (Leaves.mono_error (hstep g x) ?_) fun _ => ?_
    · rintro e se ⟨hfails, hF⟩
      refine ⟨?_, hF⟩
      rw [List.foldlM_cons, hfails]
      rfl
    · rintro se ⟨g', hg', hI⟩
      have hnext : (x :: xs).foldlM step g = xs.foldlM step g' := by
        rw [List.foldlM_cons, hg']
        rfl
      rw [hnext]
      exact ih g' hI

end Action

namespace Update
variable {u : Update} {se se' : Session} {g : Staging}

theorem stage_of_null {item : Handle × List (String × Value)} (hid : givenId item.2 = .null) :
    u.stage g item = .ok ((g.addDraft item.1.target (item.1.target.columnValues item.2)).1.attach
      item.1 u.holder (g.addDraft item.1.target (item.1.target.columnValues item.2)).2) := by
  unfold stage
  rw [hid]

section Lookups
variable {item : Handle × List (String × Value)} {rows : List Row} {row : Row}

theorem stage_of_ne_null (hid : givenId item.2 ≠ .null) :
    u.stage g item = (do
      let rows ← ((u.lookup g item.1 (givenId item.2)).run u.store).mapError Failure.store
      match rows.head? with
      | some row =>
        return (g.edit item.1.target row.id (item.1.target.fillValues item.2)).attach item.1
          u.holder (.stored item.1.target.name row.id)
      | none => throw (.problem (u.stray item.1 (givenId item.2)))) := by
  unfold stage
  split
  · rename_i hnull
    exact absurd hnull hid
  · rfl

theorem stage_of_refused (hid : givenId item.2 ≠ .null) {x : StoreError}
    (hrun : (u.lookup g item.1 (givenId item.2)).run u.store = .error x) :
    u.stage g item = .error (.store x) := by
  rw [stage_of_ne_null hid, hrun]
  rfl

theorem stage_of_found (hid : givenId item.2 ≠ .null)
    (hrun : (u.lookup g item.1 (givenId item.2)).run u.store = .ok rows)
    (hhead : rows.head? = some row) : u.stage g item =
      .ok ((g.edit item.1.target row.id (item.1.target.fillValues item.2)).attach item.1 u.holder
        (.stored item.1.target.name row.id)) := by
  rw [stage_of_ne_null hid, hrun]
  change (match rows.head? with
    | some row => _
    | none => _) = _
  rw [hhead]
  rfl

theorem stage_of_missing (hid : givenId item.2 ≠ .null)
    (hrun : (u.lookup g item.1 (givenId item.2)).run u.store = .ok rows)
    (hhead : rows.head? = none) :
    u.stage g item = .error (.problem (u.stray item.1 (givenId item.2))) := by
  rw [stage_of_ne_null hid, hrun]
  change (match rows.head? with
    | some row => _
    | none => _) = _
  rw [hhead]
  rfl

/-- A nested record is new, or its id names a row that the relation leads to. -/
theorem stage_ok {g' : Staging} (h : u.stage g item = .ok g') :
    (givenId item.2 = .null ∧
      g' = (g.addDraft item.1.target (item.1.target.columnValues item.2)).1.attach item.1 u.holder
        (g.addDraft item.1.target (item.1.target.columnValues item.2)).2) ∨
    (givenId item.2 ≠ .null ∧ ∃ row, u.Denotes item row ∧ u.Links (u.pending g) item.1 row ∧
      g' = (g.edit item.1.target row.id (item.1.target.fillValues item.2)).attach item.1 u.holder
        (.stored item.1.target.name row.id)) := by
  by_cases hid : givenId item.2 = .null
  · rw [stage_of_null hid] at h
    exact .inl ⟨hid, (Except.ok.inj h).symm⟩
  · refine .inr ⟨hid, ?_⟩
    cases hrun : (u.lookup g item.1 (givenId item.2)).run u.store with
    | error x =>
      rw [stage_of_refused hid hrun] at h
      cases h
    | ok rows =>
      cases hhead : rows.head? with
      | none =>
        rw [stage_of_missing hid hrun hhead] at h
        cases h
      | some row =>
        rw [stage_of_found hid hrun hhead] at h
        obtain rfl := Query.run_ok hrun
        obtain ⟨hstored, hconditions⟩ := Query.of_mem_rows (List.mem_of_head? hhead)
        rw [Predicate.allHold_eq_all, List.all_eq_true] at hconditions
        obtain ⟨hnamed, hlinks⟩ := List.forall_mem_cons.1 hconditions
        exact ⟨row, ⟨hstored, hnamed⟩, links_iff.2 hlinks, (Except.ok.inj h).symm⟩

end Lookups

section Steps
variable (hs : u.resource.schema.Keyed) (hmodel : u.resource.model ∈ u.resource.schema.models)
  {row : Row} (hrow : (u.store.table u.resource.model.table).find? u.id = some row)

theorem leaves_pendingValue (column : String) {E : Failure → Session → Prop} :
    Leaves (u.At se g) (Resource.pendingValue u.holder column)
      (fun v se' => u.At se g se' ∧ v = u.pending g column) E := by
  intro se' ha
  rw [ha.pendingValue column]
  exact ⟨ha, rfl⟩

theorem leaves_lookup (hstore : se.store = u.store) (q : Query) :
    Leaves (u.At se g) (Action.query q)
      (fun rows se' => u.At se g se' ∧ q.run u.store = .ok rows)
      fun e se' => se'.store = se.store ∧ ∃ x, q.run u.store = .error x ∧ e = .store x := by
  intro se' ha
  have hkept : se'.store = se.store := ha.kept.1.1
  unfold Action.query
  rw [ha.active, hkept, hstore]
  cases hr : q.run u.store with
  | ok rows => exact ⟨ha, rfl⟩
  | error x => exact ⟨hkept.trans hstore, x, rfl, rfl⟩

include hs hmodel hrow

theorem leaves_belongs (h : Handle) {E : Failure → Session → Prop} :
    Leaves (u.At se g) (Resource.belongs h u.holder)
      (fun ps se' => u.At se g se' ∧ ps = u.conditions (u.pending g) h) E := by
  unfold Resource.belongs conditions
  cases h.relation.link with
  | parent fk =>
    refine (leaves_pendingValue fk).bind fun v => .pure fun se' hv => ⟨hv.1, ?_⟩
    rw [hv.2]
  | many fk orderedBy owned =>
    refine (leaves_pendingValue _).bind fun v => .pure fun se' hv => ⟨hv.1, ?_⟩
    rw [hv.2, pending_id hs hmodel hrow hv.1.spares]
  | one fk owned =>
    refine (leaves_pendingValue _).bind fun v => .pure fun se' hv => ⟨hv.1, ?_⟩
    rw [hv.2, pending_id hs hmodel hrow hv.1.spares]

variable (hstore : se.store = u.store)
include hstore

/-- The record that a nested id names is the first of those that the lookup yields. -/
theorem leaves_findRelated (h : Handle) (id : Value) :
    Leaves (u.At se g) (u.resource.findRelated u.holder h id)
      (fun found se' => u.At se g se' ∧ ∃ rows, (u.lookup g h id).run u.store = .ok rows ∧
        found = rows.head?.map fun row => .stored h.target.name row.id)
      fun e se' => se'.store = se.store ∧
        ∃ x, (u.lookup g h id).run u.store = .error x ∧ e = .store x := by
  unfold Resource.findRelated
  refine (leaves_belongs hs hmodel hrow h).bind fun ps => .given ?_
  rintro rfl
  refine (leaves_lookup hstore _).bind fun rows => .given fun hrows => ?_
  refine Leaves.bind (Q := fun refs se' => u.At se g se' ∧
    refs = rows.map fun row => .stored h.target.name row.id) ?_ fun refs => .pure ?_
  · exact fun se' ha => ⟨ha.hold h.target rows [], rfl⟩
  · rintro se' ⟨ha, rfl⟩
    exact ⟨ha, rows, hrows, List.head?_map⟩

theorem leaves_attachNested (item : Handle × List (String × Value)) :
    Leaves (u.At se g) (u.resource.attachNested u.holder item.1 item.2)
      (fun _ se' => ∃ g', u.stage g item = .ok g' ∧ u.At se g' se')
      fun e se' => u.stage g item = .error e ∧ se.Halts e se' := by
  unfold Resource.attachNested
  split
  · rename_i hid
    intro se' ha
    exact ⟨_, stage_of_null hid, ha.stage (f := fun g => (g.addDraft item.1.target
      (item.1.target.columnValues item.2)).1.attach item.1 u.holder
        (g.addDraft item.1.target (item.1.target.columnValues item.2)).2) rfl⟩
  · rename_i hid
    refine Leaves.bind (Leaves.mono_error (leaves_findRelated hs hmodel hrow hstore item.1 _) ?_) ?_
    · rintro e se' ⟨hkept, x, hx, rfl⟩
      exact ⟨stage_of_refused hid hx, hkept, Session.failsUndone_of_ne nofun⟩
    · intro found
      cases found with
      | some member =>
        rintro se' ⟨ha, rows, hrows, hfound⟩
        obtain ⟨row, hhead, rfl⟩ := Option.map_eq_some_iff.1 hfound.symm
        have hedited := ha.edit item.1.target row.id (item.1.target.spares_fillValues item.2)
        exact ⟨_, stage_of_found hid hrows hhead, hedited.stage
          (f := fun g => g.attach item.1 u.holder (.stored item.1.target.name row.id)) rfl⟩
      | none =>
        -- The id of the record in the problem is read from the session, like any other column.
        have hstray : Leaves (fun se' => u.At se g se' ∧
            u.stage g item = .error (.problem (u.stray item.1 (givenId item.2)))) (do
              let holderId ← Resource.pendingValue u.holder idColumn.name
              Action.rollback
              Action.raise (Problem.relatedNotFound item.1.target.name (givenId item.2)
                item.1.relation.name u.resource.model.name holderId))
            (fun (_ : PUnit) se' => ∃ g', u.stage g item = .ok g' ∧ u.At se g' se')
            fun e se' => u.stage g item = .error e ∧ se.Halts e se' := by
          refine .given fun hstaged => (leaves_pendingValue _).bind fun holderId => ?_
          rintro se' ⟨ha, rfl⟩
          rw [pending_id hs hmodel hrow ha.spares]
          exact ⟨hstaged, ha.kept.1.1, fun _ _ => Session.undone_rolledBack ha.kept.1⟩
        refine Leaves.weaken hstray ?_
        rintro se' ⟨ha, rows, hrows, hfound⟩
        exact ⟨ha, stage_of_missing hid hrows (Option.map_eq_none_iff.1 hfound.symm)⟩

/-- All nested records are staged as the function says, or the update ends as it says. -/
theorem leaves_items (ns : List Nested) : Leaves (u.At se g)
    (ns.forM fun n => n.records.forM (u.resource.attachNested u.holder n.handle))
    (fun _ se' => ∃ g', (ns.flatMap fun n => n.records.map fun es => (n.handle, es)).foldlM u.stage
      g = .ok g' ∧ u.At se g' se')
    fun e se' => (ns.flatMap fun n => n.records.map fun es => (n.handle, es)).foldlM u.stage
      g = .error e ∧ se.Halts e se' := by
  -- The loop runs over the relations, and over the records of each.
  have hflat : (ns.flatMap fun n => n.records.map fun es => (n.handle, es)).foldlM u.stage g =
      ns.foldlM (fun g n => n.records.foldlM (fun g es => u.stage g (n.handle, es)) g) g := by
    induction ns generalizing g with
    | nil => rfl
    | cons n ns ih =>
      rw [List.flatMap_cons, List.foldlM_append, List.foldlM_cons, List.foldlM_map]
      exact bind_congr fun g' => ih
  rw [hflat]
  refine Leaves.foldlM (fun g n => ?_) ns g
  exact Leaves.foldlM (fun g es => leaves_attachNested hs hmodel hrow hstore (n.handle, es)) _ g

end Steps

end Update

namespace Resource
variable {r : Resource} {se : Session}

/-- The record with an id is found; a trashed one is not. -/
def Finds (r : Resource) (se : Session) (id : Value) (n : Int) : Prop :=
  (r.findById id [] false se).result = .ok (some (.stored r.model.name n))

theorem Finds.unique {r : Resource} {se : Session} {id : Value} {n n' : Int} (h : r.Finds se id n)
    (h' : r.Finds se id n') : n' = n := by
  rw [Finds, h] at h'
  exact (Ref.stored.inj (Option.some.inj (Except.ok.inj h'))).2.symm

/-- How an update ends: nothing is found or staged, or what is staged is saved. -/
inductive UpdateEnds (r : Resource) (se : Session) (id payload : Value)
    (result : Except Failure (Option Ref)) (se' : Session) : Prop
  | unfound {e : Failure} (hnone : ∀ n, ¬r.Finds se id n) (hresult : result = .error e)
    (hstore : se'.store = se.store)
  | unread {e : Failure} (he : payload.toEntries = .error e) (hresult : result = .error e)
    (hstore : se'.store = se.store)
  | broken {n : Int} {e : Failure} (hfound : r.Finds se id n)
    (hstaging : Update.staging ⟨r, se.store, n, payload⟩ = .error e) (hresult : result = .error e)
    (hhalts : se.Halts e se')
  | saved {n : Int} {g : Staging} {se₁ : Session} (hfound : r.Finds se id n)
    (hid : r.IdOf se.store id n) (hstaging : Update.staging ⟨r, se.store, n, payload⟩ = .ok g)
    (hat : Update.At ⟨r, se.store, n, payload⟩ se g se₁)
    (hresult : result = (r.saveRecord (.stored r.model.name n) "Record updated" se₁).result)
    (hsession : se' = (r.saveRecord (.stored r.model.name n) "Record updated" se₁).session)

/-- With nothing staged, a row that is read is held with what the store has of it. -/
theorem at_hold (hmodel : r.model ∈ r.schema.models) (hfresh : se.IsFresh se.store)
    (hactive : se.inactive = false) {rows : List Row}
    (hrows : ∀ row ∈ rows, row ∈ se.store.rows r.model) {row : Row} (hrow : row ∈ rows)
    (payload : Value) : Update.At ⟨r, se.store, row.id, payload⟩ se .empty
      (Action.hold r.schema r.model [] rows se).session := by
  refine ⟨⟨⟨rfl, rfl⟩, rfl⟩, hactive, hfresh.staged, fun ref name => ?_, ?_, fun e he => ?_⟩
  · rw [records_hold hfresh.staged, Graph.related?_holdAll, hfresh.records]
    rfl
  · rw [records_hold hfresh.staged, hfresh.records]
    obtain ⟨n, hn, hvalues⟩ := Graph.node?_holdAll_empty (s := r.schema) [] hmodel hrows hrow
    refine ⟨n, hn, fun column _ => ?_⟩
    have hfound : (se.store.table r.model.table).find? row.id = some row :=
      Table.find?_of_mem (hrows row hrow)
    unfold Update.stored
    dsimp only
    rw [hfound, hvalues]
    rfl
  · cases he

theorem leaves_findById_at (hmodel : r.model ∈ r.schema.models) (hfresh : se.IsFresh se.store)
    (hactive : se.inactive = false) (id payload : Value) : Leaves (Eq se) (r.findById id [] false)
      (fun found se₁ => ∀ ref, found = some ref → ∃ row ∈ se.store.rows r.model,
        ref = .stored r.model.name row.id ∧ r.IdOf se.store id row.id ∧
          Update.At ⟨r, se.store, row.id, payload⟩ se .empty se₁) fun _ _ => True := by
  unfold findById fetch
  have hquery (q : Query) : Leaves (Eq se) (Action.query q) (fun rows se₁ => se₁ = se ∧
      ∀ row ∈ rows, row ∈ se.store.rows q.model ∧
        ∀ p ∈ q.conditions, Predicate.holds se.store row p) fun _ _ => True := by
    have hstore (se₁ : Session) (h : se = se₁) : se₁.store = se.store := h ▸ rfl
    exact (leaves_query_rows hstore q).mono fun rows se₁ h => ⟨h.1.symm, h.2⟩
  refine Leaves.bind (Q := fun refs se₁ => ∀ ref ∈ refs, ∃ row ∈ se.store.rows r.model,
    ref = .stored r.model.name row.id ∧ r.IdOf se.store id row.id ∧
      Update.At ⟨r, se.store, row.id, payload⟩ se .empty se₁) ?_ fun refs => .pure ?_
  · refine (hquery _).bind fun rows => .given fun hrows => ?_
    refine Leaves.bind (Q := fun refs se₁ => ∀ ref ∈ refs, ∃ row ∈ se.store.rows r.model,
      ref = .stored r.model.name row.id ∧ r.IdOf se.store id row.id ∧
        Update.At ⟨r, se.store, row.id, payload⟩ se .empty se₁) ?_ fun refs => ?_
    · rintro se₁ rfl ref href
      obtain ⟨row, hrow, rfl⟩ := List.mem_map.1 href
      obtain ⟨hstored, hconditions⟩ := hrows row hrow
      have hid := hconditions _ (List.mem_append_right _ (List.mem_singleton_self _))
      exact ⟨row, hstored, rfl, ⟨row, hstored, rfl, hid⟩,
        at_hold hmodel hfresh hactive (fun row hrow => (hrows row hrow).1) hrow payload⟩
    · exact Leaves.bind (.modify fun se₁ h => h) fun _ => .pure fun se₁ h => h
  · exact fun se₁ h ref hfound => h ref (List.mem_of_head? hfound)

theorem leaves_findById_store (id : Value) : Leaves (Eq se) (r.findById id [] false)
    (fun _ se₁ => se₁.store = se.store) fun _ se₁ => se₁.store = se.store :=
  (leaves_findById_same (fun _ _ h => h) id).weaken fun _ h => h ▸ rfl

section Ends
variable (hs : r.schema.Keyed) (hmodel : r.model ∈ r.schema.models)
include hs hmodel

/-- Once the record is held, what the update stages tells how it ends. -/
theorem leaves_merged {id payload : Value} {row : Row} (hrow : row ∈ se.store.rows r.model)
    (hfound : r.Finds se id row.id) (hid : r.IdOf se.store id row.id) :
    Leaves (Update.At ⟨r, se.store, row.id, payload⟩ se .empty) (do
      let es ← Action.ofExcept payload.toEntries
      fill r.model (.stored r.model.name row.id) es
      (← r.nested es).forM fun n =>
        n.records.forM (r.attachNested (.stored r.model.name row.id) n.handle)
      r.saveRecord (.stored r.model.name row.id) "Record updated")
      (fun saved se' => r.UpdateEnds se id payload (.ok saved) se')
      fun e se' => r.UpdateEnds se id payload (.error e) se' := by
  refine Leaves.bind (Q := fun es se₁ =>
    Update.At ⟨r, se.store, row.id, payload⟩ se .empty se₁ ∧ es = payload.entries)
    ?_ fun es => .given ?_
  · exact .ofExcept (fun es hes se₁ hat => ⟨hat, Value.entries_of_toEntries hes⟩)
      fun e he _ hat => .unread he rfl hat.kept.1.1
  rintro rfl
  have hspares := r.model.spares_fillValues payload.entries
  refine Leaves.bind (Q := fun _ => Update.At ⟨r, se.store, row.id, payload⟩ se
    (Update.started ⟨r, se.store, row.id, payload⟩))
    (.modify fun se₁ hat => hat.edit r.model row.id hspares) fun _ => ?_
  refine (leaves_nestedItems payload.entries).bind fun ns => .given fun hitems => ?_
  have hloop := Update.leaves_items (u := ⟨r, se.store, row.id, payload⟩) hs hmodel
    (Table.find?_of_mem hrow) (Eq.refl se.store)
    (g := Update.started ⟨r, se.store, row.id, payload⟩) ns
  rw [hitems] at hloop
  refine (Leaves.mono_error hloop ?_).bind fun _ => ?_
  · rintro e se' ⟨hstaging, hhalts⟩
    exact .broken hfound hstaging rfl hhalts
  · rintro se₁ ⟨g, hstaging, hat⟩
    cases hr : (r.saveRecord (.stored r.model.name row.id) "Record updated" se₁).result with
    | ok saved => exact .saved hfound hid hstaging hat hr.symm rfl
    | error e => exact .saved hfound hid hstaging hat hr.symm rfl

/-- How an update ends is told by what it stages and how that is saved. -/
theorem update_ends (hfresh : se.IsFresh se.store) (hactive : se.inactive = false)
    (id payload : Value) : r.UpdateEnds se id payload (r.update id payload se).result
      (r.update id payload se).session := by
  suffices hleaves : Leaves (Eq se) (r.update id payload)
      (fun saved se' => r.UpdateEnds se id payload (.ok saved) se')
      fun e se' => r.UpdateEnds se id payload (.error e) se' by
    cases hr : (r.update id payload se).result with
    | ok saved => exact hleaves.ok rfl hr
    | error e => exact hleaves.error rfl hr
  unfold update
  have hfind := (leaves_of_eq (r.findById id [] false)).and ((leaves_findById_store id).and
    (leaves_findById_at hmodel hfresh hactive id payload))
  refine (hfind.mono_error ?_).bind fun found => ?_
  · rintro e se₁ ⟨⟨hfails, -⟩, hstore, -⟩
    refine .unfound (fun n hfound => ?_) rfl hstore
    rw [Finds, hfails] at hfound
    cases hfound
  · cases found with
    | none =>
      rintro se₁ ⟨⟨hnone, -⟩, hstore, -⟩
      refine .unfound (fun n hfound => ?_) rfl hstore
      rw [Finds, hnone] at hfound
      cases hfound
    | some holder =>
      rintro se₁ ⟨⟨hfound, -⟩, -, hheld⟩
      obtain ⟨row, hrow, rfl, hid, hat⟩ := hheld holder rfl
      exact leaves_merged hs hmodel hrow hfound hid hat

end Ends

end Resource

end Records
