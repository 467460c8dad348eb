import Records.Proofs.Resource.Settled
import Records.Proofs.Staging.Edits
import Records.Proofs.Staging.Frame

/-!
A record while it is being updated. What the session has staged by then is about the record, about
new ones, and about records of its relations that the payload names by their ids. A relation to a
parent is judged by the key that the record is about to have, which the payload may have given it.
-/
namespace Records

open Records.Action
open Records.Filter (Predicate)

def Value.entries : Value → List (String × Value)
  | .object es => es
  | _ => []

theorem Value.entries_of_toEntries {v : Value} {es : List (String × Value)}
    (h : v.toEntries = .ok es) : es = v.entries := by
  unfold Value.toEntries at h
  split at h
  · cases h
    rfl
  · cases h

/-- A payload holds a nested record under the name of a relation. -/
def Resource.Nests (r : Resource) (payload : Value) (h : Handle) (es : List (String × Value)) :
    Prop :=
  ∃ key v records, (key, v) ∈ payload.entries ∧ r.model.hasColumn key = false ∧
    r.schema.resolve? r.model key = some h ∧ v.nestedRecords? = some records ∧ es ∈ records

theorem Resource.nested_nests {r : Resource} {payload : Value} {P : Session → Prop}
    {E : Failure → Session → Prop} {es : List (String × Value)}
    (hes : ∀ e ∈ es, e ∈ payload.entries) :
    Leaves P (r.nested es) (fun ns se => P se ∧
      ∀ n ∈ ns, ∀ record ∈ n.records, r.Nests payload n.handle record) E := by
  induction es with
  | nil => exact .pure fun se hP => ⟨hP, fun n hn => by cases hn⟩
  | cons e es ih =>
    obtain ⟨key, v⟩ := e
    obtain ⟨hentry, hrest⟩ := List.forall_mem_cons.1 hes
    unfold Resource.nested
    split
    · rename_i records hkey hrecords
      split
      · rename_i h hrelation
        refine (ih hrest).bind fun ns => .pure fun se hns => ⟨hns.1, ?_⟩
        refine List.forall_mem_cons.2 ⟨fun record hrecord => ?_, hns.2⟩
        refine ⟨key, v, records, hentry, hkey, hrelation, hrecords, ?_⟩
        -- A singular relation takes the last of them.
        dsimp only at hrecord
        split at hrecord
        · exact hrecord
        · exact List.mem_of_getLast? (Option.mem_toList.1 hrecord)
      · exact Leaves.bind (.entry _) fun _ => ih hrest
    · exact ih hrest

/-- A payload for a record of a resource, and the store that it comes to. -/
structure Update where
  resource : Resource
  store : Store
  id : Int
  payload : Value

namespace Update

def holder (u : Update) : Ref := .stored u.resource.model.name u.id

def Nests (u : Update) : Handle → List (String × Value) → Prop := u.resource.Nests u.payload

/-- What a column of the record holds, or may be given by the payload. -/
inductive MayHave (u : Update) : String → Value → Prop
  | stored {row : Row} {c : Column} (hrow : row ∈ u.store.rows u.resource.model)
    (hid : row.id = u.id) (hc : c ∈ u.resource.model.columns) : MayHave u c.name (row.value c)
  | given {e : String × Value} (he : e ∈ u.payload.entries) (hid : e.1 ≠ idColumn.name) :
    MayHave u e.1 e.2
  /-- The record is nested in itself. -/
  | nested {h : Handle} {es : List (String × Value)} {e : String × Value} (hn : u.Nests h es)
    (ht : h.target.name = u.resource.model.name) (he : e ∈ es) (hid : e.1 ≠ idColumn.name) :
    MayHave u e.1 e.2

/-- A relation of the record leads to a row. -/
def LeadsTo (u : Update) (h : Handle) (row : Row) : Prop :=
  match h.relation.link with
  | .parent fk => ∃ v, u.MayHave fk v ∧
    Predicate.holds u.store row (.compare ⟨h.target.table, idColumn⟩ .eq v)
  | link => ∀ c, h.target.column? link.foreignKey = some c →
    Predicate.holds u.store row (.compare ⟨h.target.table, c⟩ .eq (.int u.id))

/-- The payload names a record of a relation by its id. -/
inductive Names (u : Update) (h : Handle) : Ref → Prop
  | intro {es : List (String × Value)} {row : Row} (hn : u.Nests h es)
    (hrow : row ∈ u.store.rows h.target) (hid : Predicate.holds u.store row
      (exactly h.target idColumn ((Value.lookup? idColumn.name es).getD .null)))
    (hleads : u.LeadsTo h row) : Names u h (.stored h.target.name row.id)

theorem Names.exists_id {u : Update} {h : Handle} {ref : Ref} (hn : u.Names h ref) :
    ∃ id, ref = .stored h.target.name id := by
  cases hn with
  | intro _ _ _ _ => exact ⟨_, rfl⟩

/-- A session in which the payload is being merged. -/
structure Underway (u : Update) (se : Session) : Prop where
  store_eq : se.store = u.store
  loads_nothing : ∀ ref name, se.records.related? ref name = none
  held : ∀ n, se.records.node? u.holder = some n → ∀ e ∈ n.values, u.MayHave e.1 e.2
  edits : ∀ e ∈ se.staged.edits,
    (.stored e.model.name e.id = u.holder ∨ ∃ h, u.Names h (.stored e.model.name e.id)) ∧
      ∀ v ∈ e.values, v.1 ≠ idColumn.name ∧
        (.stored e.model.name e.id = u.holder → u.MayHave v.1 v.2)
  attachments : ∀ a ∈ se.staged.attachments, a.holder = u.holder ∧ (∃ es, u.Nests a.handle es) ∧
    ((∃ n, a.member = .draft n) ∨ u.Names a.handle a.member)
  removed : se.staged.removed = []

theorem underway_of_fresh {u : Update} {se : Session} (hstore : se.store = u.store)
    (hrecords : se.records = .empty) (hstaged : se.staged = .empty) : u.Underway se := by
  refine ⟨hstore, ?_, ?_, ?_, ?_, ?_⟩
  · rw [hrecords]
    exact fun ref name => rfl
  · rw [hrecords]
    exact fun n hn => by cases hn
  · rw [hstaged]
    exact fun e he => by cases he
  · rw [hstaged]
    exact fun a ha => by cases ha
  · rw [hstaged]
    rfl

end Update

theorem Model.mem_fillValues (m : Model) {es : List (String × Value)}
    {v : String × Value} (hv : v ∈ m.fillValues es) : v ∈ es ∧ v.1 ≠ idColumn.name := by
  obtain ⟨hv, hid⟩ := List.mem_filter.1 hv
  exact ⟨(List.mem_filter.1 hv).1, by simpa using hid⟩

theorem Model.spares_fillValues (m : Model) (es : List (String × Value)) :
    SparesId (m.fillValues es) :=
  fun _ hv => (m.mem_fillValues hv).2

/-- Nothing equals null in a condition. -/
theorem not_holds_compare_null {st : Store} {row : Row} {f : Filter.Field}
    {op : Filter.Comparison} : ¬Predicate.holds st row (.compare f op .null) := by
  have hcell (c : Codec) : (Parameter.cell ⟨c, .null⟩) = .ok .null := by cases c <;> rfl
  have hcompared : Filter.comparedCell f (Filter.comparisonParameter f .null) = .null := by
    change Cell.compared _ ((Parameter.cell ⟨_, .null⟩).toOption.getD .null) = .null
    rw [hcell]
    rfl
  rw [Predicate.holds, Predicate.compareHolds, hcompared]
  cases row.cell f.column.name <;> exact Bool.false_ne_true

/-- A query yields rows of the store for which its conditions hold. -/
theorem leaves_query_rows {P : Session → Prop} {st : Store} (hP : ∀ se, P se → se.store = st)
    (q : Query) : Leaves P (Action.query q) (fun rows se => P se ∧ ∀ row ∈ rows,
      row ∈ st.rows q.model ∧ ∀ p ∈ q.conditions, Predicate.holds st row p) fun _ _ => True := by
  intro se hse
  unfold Action.query
  cases se.inactive with
  | true => trivial
  | false =>
    cases hr : q.run se.store with
    | error e => trivial
    | ok rows =>
      obtain rfl := Query.run_ok hr
      refine ⟨hse, fun row hrow => ?_⟩
      rw [← hP se hse]
      obtain ⟨hmem, hconditions⟩ := Query.of_mem_rows hrow
      rw [Predicate.allHold_eq_all] at hconditions
      exact ⟨hmem, List.all_eq_true.1 hconditions⟩

section Held
variable {s : Schema} {st : Store} {m : Model} {Q : String × Value → Prop} {ref : Ref}

theorem Graph.forall_values_holdAll {rows : List Row} {deferred : List String} {g : Graph}
    (hg : ∀ n, g.node? ref = some n → ∀ e ∈ n.values, Q e)
    (hrows : ∀ row ∈ rows, ref = .stored m.name row.id → ∀ c ∈ m.columns, Q (c.name, row.value c)) :
    ∀ n, (rows.foldl (hold s st m deferred) g).node? ref = some n → ∀ e ∈ n.values, Q e := by
  induction rows generalizing g with
  | nil => exact hg
  | cons row rows ih =>
    obtain ⟨hfirst, hrest⟩ := List.forall_mem_cons.1 hrows
    refine ih (fun n hn => ?_) hrest
    rw [node?_hold] at hn
    split at hn
    · rename_i hsame
      cases hn
      cases hbefore : g.node? ref with
      | some n => exact hg n hbefore
      | none =>
        intro e he
        obtain ⟨c, hc, rfl⟩ := List.mem_map.1 he
        exact hfirst hsame c hc
    · exact hg n hn

theorem Graph.forall_values_revalueAll {rows : List Row} {es : Row → List (String × Value)}
    {g : Graph} (hg : ∀ n, g.node? ref = some n → ∀ e ∈ n.values, Q e)
    (hes : ∀ row ∈ rows, ref = .stored m.name row.id → ∀ e ∈ es row, Q e) :
    ∀ n, (g.revalueAll m es rows).node? ref = some n → ∀ e ∈ n.values, Q e := by
  induction rows generalizing g with
  | nil => exact hg
  | cons row rows ih =>
    obtain ⟨hfirst, hrest⟩ := List.forall_mem_cons.1 hes
    refine ih (fun n hn => ?_) hrest
    unfold revalue at hn
    rw [node?_modify] at hn
    obtain ⟨before, hbefore, rfl⟩ := Option.map_eq_some_iff.1 hn
    have hvalues := hg before hbefore
    split
    · rename_i hsame
      intro e he
      rcases Value.mem_merge he with he | he
      · exact hvalues e he
      · exact hfirst hsame e he
    · exact hvalues

end Held

namespace Update
variable {u : Update} {se : Session} {m : Model}

theorem Underway.mem_valuesOf (hu : u.Underway se) {name : String} {id : Int}
    {v : String × Value} (hv : v ∈ se.staged.valuesOf name id) :
    v.1 ≠ idColumn.name ∧ (.stored name id = u.holder → u.MayHave v.1 v.2) := by
  unfold Staging.valuesOf at hv
  cases hfound : se.staged.edits.find? (fun e => e.model.name = name ∧ e.id = id) with
  | none =>
    rw [hfound] at hv
    cases hv
  | some e =>
    rw [hfound] at hv
    have hsame : e.model.name = name ∧ e.id = id := by simpa using List.find?_some hfound
    have hedit := (hu.edits e (List.mem_of_find?_eq_some hfound)).2 v hv
    rwa [hsame.1, hsame.2] at hedit

/-- Rows of the store are held, with what is staged for them. -/
theorem Underway.hold (hu : u.Underway se) (hm : m ∈ u.resource.schema.models)
    (hmodel : u.resource.model ∈ u.resource.schema.models) {rows : List Row}
    (hrows : ∀ row ∈ rows, row ∈ u.store.rows m) (deferred : List String) :
    u.Underway (Action.hold u.resource.schema m deferred rows se).session := by
  have hstored (row : Row) (hrow : row ∈ rows) (hsame : u.holder = .stored m.name row.id) :
      ∀ c ∈ m.columns, u.MayHave c.name (row.value c) := by
    intro c hc
    obtain ⟨hname, hid⟩ := Ref.stored.inj hsame
    obtain rfl : u.resource.model = m := Schema.eq_of_name hmodel hm hname
    exact .stored (hrows row hrow) hid.symm hc
  refine ⟨hu.store_eq, ?_, ?_, hu.edits, hu.attachments, hu.removed⟩
  · intro ref name
    rw [records_hold_revalue, Graph.related?_revalueAll, Graph.related?_holdAll]
    exact hu.loads_nothing ref name
  · rw [records_hold_revalue]
    refine Graph.forall_values_revalueAll (Q := fun e => u.MayHave e.1 e.2) ?_ ?_
    · exact Graph.forall_values_holdAll hu.held hstored
    · intro row _ hsame e he
      exact (hu.mem_valuesOf he).2 hsame.symm

theorem Underway.edit (hu : u.Underway se) {id : Int} {values : List (String × Value)}
    (hid : .stored m.name id = u.holder ∨ ∃ h, u.Names h (.stored m.name id))
    (hvalues : ∀ v ∈ values, v.1 ≠ idColumn.name ∧
      (.stored m.name id = u.holder → u.MayHave v.1 v.2)) :
    u.Underway { se with staged := se.staged.edit m id values } := by
  refine ⟨hu.store_eq, hu.loads_nothing, hu.held, ?_, hu.attachments, hu.removed⟩
  exact Staging.forall_putEdit
    (K := fun name id => .stored name id = u.holder ∨ ∃ h, u.Names h (.stored name id))
    (Q := fun name id v => v.1 ≠ idColumn.name ∧ (.stored name id = u.holder → u.MayHave v.1 v.2))
    hu.edits hid hvalues

theorem Underway.attach (hu : u.Underway se) {h : Handle} {es : List (String × Value)}
    (hn : u.Nests h es) {member : Ref} (hmember : (∃ n, member = .draft n) ∨ u.Names h member) :
    u.Underway { se with staged := se.staged.attach h u.holder member } := by
  refine ⟨hu.store_eq, hu.loads_nothing, hu.held, hu.edits, ?_, hu.removed⟩
  intro a ha
  rcases List.mem_append.1 ha with ha | ha
  · exact hu.attachments a ha
  · obtain rfl := List.mem_singleton.1 ha
    exact ⟨rfl, ⟨es, hn⟩, hmember⟩

/-- An action that goes on with the update; what it leaves when it fails does not matter. -/
def Proceeds {α : Type} (u : Update) (x : Action α) (Q : α → Prop) : Prop :=
  Leaves u.Underway x (fun a se => u.Underway se ∧ Q a) fun _ _ => True

/-- An action that goes on with the update, whatever it yields. -/
def Keeps {α : Type} (u : Update) (x : Action α) : Prop :=
  Leaves u.Underway x (fun _ => u.Underway) fun _ _ => True

theorem proceeds_pendingValue (column : String) :
    u.Proceeds (Resource.pendingValue u.holder column) fun v => v = .null ∨ u.MayHave column v := by
  intro se hu
  have hheld : let v := ((se.records.node? u.holder).map (·.value column)).getD .null
      v = .null ∨ u.MayHave column v := by
    cases hn : se.records.node? u.holder with
    | none => exact .inl rfl
    | some n =>
      change n.value column = .null ∨ u.MayHave column (n.value column)
      unfold Node.value
      cases hv : Value.lookup? column n.values with
      | none => exact .inl rfl
      | some v => exact .inr (hu.held n hn _ (Value.mem_of_lookup? hv))
  refine ⟨hu, ?_⟩
  change (Value.lookup? column (se.staged.valuesOf u.resource.model.name u.id)).getD _ = .null ∨
    u.MayHave column ((Value.lookup? column (se.staged.valuesOf _ u.id)).getD _)
  cases hv : Value.lookup? column (se.staged.valuesOf u.resource.model.name u.id) with
  | none => exact hheld
  | some v =>
    have hstaged (e : String × Value) (he : e ∈ se.staged.valuesOf u.resource.model.name u.id) :
        u.MayHave e.1 e.2 := (hu.mem_valuesOf he).2 rfl
    exact .inr (hstaged _ (Value.mem_of_lookup? hv))

theorem mayHave_id {v : Value} (hs : u.resource.schema.Keyed)
    (hmodel : u.resource.model ∈ u.resource.schema.models) (hv : u.MayHave idColumn.name v) :
    v = .int u.id := by
  generalize hname : idColumn.name = name at hv
  cases hv with
  | stored hrow hid hc =>
    rw [hs.id_only _ hmodel _ hc hname.symm]
    unfold Row.value
    rw [Row.cell_id, hid]
    rfl
  | given he hid => exact absurd hname.symm hid
  | nested hn ht he hid => exact absurd hname.symm hid

/-- The conditions on related records hold only for rows that the relation leads to. -/
theorem proceeds_belongs (hs : u.resource.schema.Keyed)
    (hmodel : u.resource.model ∈ u.resource.schema.models) (h : Handle) :
    u.Proceeds (Resource.belongs h u.holder) fun ps =>
      ∀ row, (∀ p ∈ ps, Predicate.holds u.store row p) → u.LeadsTo h row := by
  unfold Resource.belongs
  split
  · rename_i fk hlink
    refine (proceeds_pendingValue fk).bind fun v => .pure fun se hu => ⟨hu.1, fun row hrow => ?_⟩
    have hholds := hrow _ (List.mem_singleton_self _)
    unfold LeadsTo
    rw [hlink]
    rcases hu.2 with rfl | hv
    · exact absurd hholds not_holds_compare_null
    · exact ⟨v, hv, hholds⟩
  · rename_i hlink
    refine (proceeds_pendingValue idColumn.name).bind fun v => .pure fun se hu => ⟨hu.1, ?_⟩
    intro row hrow
    unfold LeadsTo
    split
    · rename_i fk hparent
      exact absurd hparent (hlink fk)
    · intro c hc
      have hholds := hrow _ (List.mem_map_of_mem (Option.mem_toList.2 hc))
      rcases hu.2 with rfl | hv
      · exact absurd hholds not_holds_compare_null
      · exact mayHave_id hs hmodel hv ▸ hholds

theorem declares_of_nests (hmodel : u.resource.model ∈ u.resource.schema.models) {h : Handle}
    {es : List (String × Value)} (hn : u.Nests h es) : u.resource.schema.Declares h := by
  obtain ⟨key, v, records, -, -, hrelation, -, -⟩ := hn
  exact (Schema.declares_of_resolve? hmodel hrelation).1

theorem proceeds_findRelated (hs : u.resource.schema.Keyed)
    (hmodel : u.resource.model ∈ u.resource.schema.models) {h : Handle}
    {es : List (String × Value)} (hn : u.Nests h es) :
    u.Proceeds (u.resource.findRelated u.holder h
      ((Value.lookup? idColumn.name es).getD .null)) fun found =>
        ∀ member, found = some member → u.Names h member := by
  have ht : h.target ∈ u.resource.schema.models := (declares_of_nests hmodel hn).target_mem
  unfold Resource.findRelated
  refine (proceeds_belongs hs hmodel h).bind fun ps => .given fun hleads => ?_
  refine (leaves_query_rows (fun se hu => hu.store_eq) _).bind fun rows => .given fun hrows => ?_
  have hmem (row : Row) (hrow : row ∈ rows) : row ∈ u.store.rows h.target := (hrows row hrow).1
  refine Leaves.bind (Q := fun refs se => u.Underway se ∧
    refs = rows.map fun row => .stored h.target.name row.id) ?_ fun refs => .given ?_
  · exact fun se hu => ⟨hu.hold ht hmodel hmem [], rfl⟩
  · rintro rfl
    refine .pure fun se hu => ⟨hu, fun member hfound => ?_⟩
    obtain ⟨row, hrow, rfl⟩ := List.mem_map.1 (List.mem_of_head? hfound)
    obtain ⟨hstored, hconditions⟩ := hrows row hrow
    obtain ⟨hid, hbelongs⟩ := List.forall_mem_cons.1 hconditions
    exact ⟨hn, hstored, hid, hleads row hbelongs⟩

theorem keeps_fill_named {h : Handle} {es : List (String × Value)} (hn : u.Nests h es)
    {member : Ref} (hnames : u.Names h member) :
    u.Keeps (Resource.fill h.target member es) := by
  obtain ⟨id, rfl⟩ := hnames.exists_id
  refine .modify fun se hu => hu.edit (.inr ⟨h, hnames⟩) fun v hv => ?_
  obtain ⟨hmem, hid⟩ := Model.mem_fillValues _ hv
  exact ⟨hid, fun hself => .nested hn (Ref.stored.inj hself).1 hmem hid⟩

/-- A nested record is staged as a new one, or merged into one that the payload names. -/
theorem keeps_attachNested (hs : u.resource.schema.Keyed)
    (hmodel : u.resource.model ∈ u.resource.schema.models) {h : Handle}
    {es : List (String × Value)} (hn : u.Nests h es) :
    u.Keeps (u.resource.attachNested u.holder h es) := by
  unfold Resource.attachNested
  split
  · unfold Resource.attachNew
    refine Leaves.bind (Q := fun member se => u.Underway se ∧ ∃ n, member = .draft n) ?_ ?_
    · exact fun se hu => ⟨⟨hu.store_eq, hu.loads_nothing, hu.held, hu.edits, hu.attachments,
        hu.removed⟩, se.staged.drafts.length, rfl⟩
    · exact fun member => .given fun hmember => fun se hu => hu.attach hn (.inl hmember)
  · refine (proceeds_findRelated hs hmodel hn).bind fun found => ?_
    cases found with
    | some member =>
      refine .given fun hfound => ?_
      have hnames := hfound member rfl
      refine Leaves.bind (Q := fun _ => u.Underway) ?_ fun _ => ?_
      · exact keeps_fill_named hn hnames
      · exact fun se hu => hu.attach hn (.inr hnames)
    | none =>
      -- The update fails here.
      refine (leaves_anything _).bind fun holderId => (leaves_anything _).bind fun _ => ?_
      exact fun se _ => trivial

/-- The payload is merged into the record itself. -/
theorem keeps_fill_holder {es : List (String × Value)} (hes : es = u.payload.entries) :
    u.Keeps (Resource.fill u.resource.model u.holder es) := by
  refine .modify fun se hu => hu.edit (.inl rfl) fun v hv => ?_
  obtain ⟨hmem, hid⟩ := Model.mem_fillValues _ hv
  exact ⟨hid, fun _ => .given (hes ▸ hmem) hid⟩

/-- All that the payload asks for is staged. -/
theorem proceeds_merge (hs : u.resource.schema.Keyed)
    (hmodel : u.resource.model ∈ u.resource.schema.models) {es : List (String × Value)}
    (hes : es = u.payload.entries) {α : Type} {rest : Action α} {Q : α → Session → Prop}
    (hrest : Leaves u.Underway rest Q fun _ _ => True) :
    Leaves u.Underway (do
      Resource.fill u.resource.model u.holder es
      (← u.resource.nested es).forM fun n =>
        n.records.forM (u.resource.attachNested u.holder n.handle)
      rest) Q fun _ _ => True := by
  refine (keeps_fill_holder hes).bind fun _ => ?_
  refine (Resource.nested_nests fun e he => hes ▸ he).bind fun ns => .given fun hns => ?_
  refine (Leaves.forM fun n hn => .forM fun record hrecord => ?_).bind fun _ => hrest
  exact keeps_attachNested hs hmodel (hns n hn record hrecord)

end Update

end Records
